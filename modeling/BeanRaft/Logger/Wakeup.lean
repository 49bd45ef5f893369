import Mathlib.Data.Finset.Card
import BeanRaft.Logger.Pipe

/-!
# BeanRaft.Logger.Wakeup — no wake-up on `cv` is lost

* `Crowd`: who is parked, which index each writer waits for, and the counters the notifications are chosen by.
* `CrowdStep`: what one action can do to it.  `step_crowd`: every step of the logger does one of these things.
* `Awake`: the invariant.  `blocked_threads` counts the threads in the wait loop, parked or woken, so `notify_one`
  is chosen only when at most one thread can be parked.
* `noLostWakeup_always`: the two statements about parked threads, for every run.
-/

namespace BeanRaft.Logger

open Lts

variable {s s' : LogWritter} {a : Act}

/-- The index that a thread in the wait loop of `write` waits for. -/
def WriterPc.need : WriterPc → Option Nat
  | waiting n => some n
  | _ => none

structure Crowd where
  cv : Finset Waiter
  waits : Tid → Option Nat
  blocked_threads : Nat
  written_log_index : Nat
  flushed_log_index : Nat
  /-- The async thread is at its `wait_for`. -/
  asleep : Bool

def LogWritter.crowd (s : LogWritter) : Crowd :=
  ⟨s.cv, WriterPc.need ∘ s.writers, s.blocked_threads, s.written_log_index, s.flushed_log_index,
    decide (s.async = .waiting)⟩

/-- What the notification after a batch leaves of `cv`. -/
inductive Notified (c : Crowd) : Finset Waiter → Prop
  | nobody (h : c.blocked_threads = 0) : Notified c c.cv
  | one (h : c.blocked_threads = 1) {x : Waiter} (hx : x ∈ c.cv) : Notified c (c.cv.erase x)
  | all : Notified c ∅

/-- What an action can do to the crowd. -/
inductive CrowdStep (c : Crowd) : Crowd → Prop
  /-- Some are woken, and at most pushes happen. -/
  | notify (cv : Finset Waiter) (n : Nat) (h : cv ⊆ c.cv) :
    CrowdStep c { c with cv := cv, written_log_index := c.written_log_index + n }
  /-- A forced `write` wakes all and parks. -/
  | join (t : Tid) (h : c.waits t = none) (hlt : c.flushed_log_index < c.written_log_index + 1) :
    CrowdStep c
      { c with
        cv := {.writer t}
        waits := Function.update c.waits t (some (c.written_log_index + 1))
        blocked_threads := c.blocked_threads + 1
        written_log_index := c.written_log_index + 1 }
  | park (t : Tid) (need : Nat) (h : c.waits t = some need) (hlt : c.flushed_log_index < need) :
    CrowdStep c { c with cv := insert (.writer t) c.cv }
  | leave (t : Tid) (need : Nat) (h : c.waits t = some need) (hle : need ≤ c.flushed_log_index) :
    CrowdStep c { c with waits := Function.update c.waits t none, blocked_threads := c.blocked_threads - 1 }
  /-- The async thread parks when everything is flushed. -/
  | sleep (h : c.flushed_log_index = c.written_log_index) :
    CrowdStep c { c with cv := insert .async c.cv, asleep := true }
  | rise (h : .async ∉ c.cv) : CrowdStep c { c with asleep := false }
  | finish (n : Nat) (cv : Finset Waiter) (h : c.asleep = false) (hcv : Notified c cv) :
    CrowdStep c { c with cv := cv, flushed_log_index := c.flushed_log_index + n }

/-! ## The crowd of each piece of the logger -/

theorem setWriter_crowd (s : LogWritter) (t : Tid) (pc : WriterPc) :
    (s.setWriter t pc).crowd = { s.crowd with waits := Function.update s.crowd.waits t pc.need } :=
  congrArg (fun waits => { s.crowd with waits := waits }) (setWriter_comp WriterPc.need s t pc)

/-- A thread outside the wait loop stays outside. -/
theorem setWriter_crowd_self {t : Tid} {p : WriterPc} (h : (s.writers t).need = none) (hp : p.need = none) :
    (s.setWriter t p).crowd = s.crowd :=
  congrArg (fun waits => { s.crowd with waits := waits }) (setWriter_comp_self (hp.trans h.symm))

theorem CrowdStep.of_eq {c c' c'' : Crowd} (hs : CrowdStep c c') (h : c'' = c') : CrowdStep c c'' := by
  rw [h]
  exact hs

theorem CrowdStep.stutter {c c' : Crowd} (h : c' = c) : CrowdStep c c' :=
  (CrowdStep.notify c.cv 0 (Finset.Subset.refl _)).of_eq h

theorem push_crowd {t : Tid} (h : (s.writers t).need = none) (m : Nat) (text : Text) :
    ((s.setWriter t .idle).push m text).crowd = { s.crowd with written_log_index := s.written_log_index + 1 } := by
  rw [← setWriter_crowd_self (p := .idle) h rfl]
  rfl

theorem waitLoop_crowd {t : Tid} {need : Nat} (h : s.crowd.waits t = some need) :
    CrowdStep s.crowd (s.waitLoop t need).crowd := by
  rcases waitLoop_cases s t need with ⟨hlt, hw⟩ | ⟨hle, hw⟩
  · have hc : (s.waitLoop t need).crowd = { s.crowd with cv := insert (.writer t) s.cv } := by
      have hset : (s.setWriter t (.waiting need)).crowd = s.crowd :=
        congrArg (fun waits => { s.crowd with waits := waits }) (setWriter_comp_self h.symm)
      rw [hw]
      exact congrArg (fun c : Crowd => { c with cv := insert (Waiter.writer t) s.cv }) hset
    rw [hc]
    exact .park t need h hlt
  · have hset := setWriter_crowd s t .idle
    have hc : (s.waitLoop t need).crowd =
        { s.crowd with waits := Function.update s.crowd.waits t none, blocked_threads := s.blocked_threads - 1 } := by
      rw [hw]
      exact congrArg (fun c : Crowd => { c with blocked_threads := s.blocked_threads - 1 }) hset
    rw [hc]
    exact .leave t need h hle

theorem write_crowd (hi : Accounted s.pipe) {t : Tid} {f : Bool} {m : Nat} {text : Text} {x : Waiter}
    (hpc : (s.writers t).need = none) (h : s.write t f m text x = some s') : CrowdStep s.crowd s'.crowd := by
  have hp := push_crowd hpc m text
  have hlt : s.flushed_log_index < s.written_log_index + 1 := by
    have hle : s.flushed_log_index ≤ s.pushed.length := hi.le
    have hw : s.written_log_index = s.pushed.length := hi.written
    omega
  -- a `write` that does not wait wakes some of the parked threads, or none
  have wakes : ∀ cv, cv ⊆ s.cv → s'.crowd = { ((s.setWriter t .idle).push m text).crowd with cv := cv } →
      CrowdStep s.crowd s'.crowd := by
    intro cv hcv hs
    rw [hs, hp]
    exact .notify cv 1 hcv
  rcases write_cases h with ⟨-, rfl⟩ | ⟨-, rfl⟩ | ⟨-, rfl | rfl | ⟨-, hn⟩⟩
  · exact wakes s.cv (Finset.Subset.refl _) rfl
  · rcases waitLoop_cases _ t _ with ⟨-, hw⟩ | ⟨hge, -⟩
    · rw [hw]
      have hset := setWriter_crowd ((s.setWriter t .idle).push m text) t (.waiting (s.written_log_index + 1))
      rw [hp] at hset
      have hc := congrArg (fun c : Crowd =>
        { c with cv := {Waiter.writer t}, blocked_threads := c.blocked_threads + 1 }) hset
      exact (CrowdStep.join (c := s.crowd) t hpc hlt).of_eq hc
    · have : s.written_log_index + 1 ≤ s.flushed_log_index := hge
      omega
  · exact wakes s.cv (Finset.Subset.refl _) rfl
  · exact wakes ∅ (Finset.empty_subset _) rfl
  · rcases notifyOne_cases hn with ⟨-, rfl⟩ | ⟨-, rfl⟩
    · exact wakes _ (Finset.erase_subset x s.cv) rfl
    · exact wakes s.cv (Finset.Subset.refl _) rfl

theorem iterate_crowd (hi : Accounted s.pipe) (hpc : s.async = .top) : CrowdStep s.crowd s.iterate.crowd := by
  rcases iterate_cases s with ⟨-, hm, h⟩ | ⟨-, -, -, h⟩ | ⟨-, hm, h⟩ | ⟨-, h⟩ <;> rw [h]
  · -- the queue is empty and no batch is running, so every push is flushed
    have hq : s.pushed.drop s.flushed_log_index = s.async.table ++ s.memtable := hi.queue
    rw [hpc, hm] at hq
    have hlen := List.drop_eq_nil_iff.mp hq
    have hle : s.flushed_log_index ≤ s.pushed.length := hi.le
    have hw : s.written_log_index = s.pushed.length := hi.written
    exact .sleep (c := s.crowd) (show s.flushed_log_index = s.written_log_index by omega)
  · exact .stutter rfl
  · exact .stutter (by simp [LogWritter.crowd, hpc])
  · refine .stutter ?_
    unfold LogWritter.prepareReport
    split <;> simp [LogWritter.crowd, hpc]

theorem update_crowd {b : Batch} {x : Waiter} (hpc : s.async = .relock b) (h : s.update b x = some s') :
    CrowdStep s.crowd s'.crowd := by
  have hasleep : s.crowd.asleep = false := by simp [LogWritter.crowd, hpc]
  have hend : (s.endBatch b).crowd =
      { s.crowd with flushed_log_index := s.flushed_log_index + b.current_flushed_logs } := by
    unfold LogWritter.endBatch LogWritter.splice
    split <;> simp [LogWritter.crowd, hpc]
  have finish : ∀ cv, Notified s.crowd cv → s'.crowd = { (s.endBatch b).crowd with cv := cv } →
      CrowdStep s.crowd s'.crowd := by
    intro cv hcv hs
    rw [hs, hend]
    exact .finish _ cv hasleep hcv
  obtain ⟨-, hbl, hcv, -⟩ := endBatch_frame s b
  rcases update_cases h with ⟨h1, hn⟩ | ⟨-, rfl⟩ | ⟨h0, rfl⟩
  · rw [hbl] at h1
    rcases notifyOne_cases hn with ⟨hx, rfl⟩ | ⟨he, rfl⟩
    · rw [hcv] at hx
      refine finish (s.cv.erase x) (.one h1 hx) ?_
      rw [← hcv]
      rfl
    · refine finish ∅ .all ?_
      rw [← he]
      rfl
  · exact finish ∅ .all rfl
  · rw [hbl] at h0
    refine finish s.cv (.nobody h0) ?_
    rw [← hcv]
    rfl

/-- **Every step of the logger does to the crowd one of the things of `CrowdStep`.** -/
theorem step_crowd (h0 : s.misslog_len = 0) (hi : Accounted s.pipe) (h : s.step a = some s') :
    CrowdStep s.crowd s'.crowd := by
  have away : ∀ {t : Tid} {pc pc' : WriterPc}, s.writers t = pc → pc.need = none → pc'.need = none →
      (s.setWriter t pc').crowd = s.crowd := fun hw hp hp' => setWriter_crowd_self (by rw [hw]; exact hp) hp'
  cases step_did h with
  | writeLog hmu hpc =>
    unfold LogWritter.writeLog
    split
    · exact .stutter rfl
    · exact .stutter (away hpc rfl rfl)
  | allocate hpc =>
    unfold LogWritter.allocate
    split <;> exact .stutter (away hpc rfl rfl)
  | miss hmu hpc =>
    unfold LogWritter.miss
    split <;> exact .stutter (away hpc rfl rfl)
  | retry hpc =>
    unfold LogWritter.retry
    split <;> exact .stutter (away hpc rfl rfl)
  | retryMiss hmu hpc => exact .stutter (away hpc rfl rfl)
  | format hmu hpc h => exact write_crowd hi (by rw [hpc]; rfl) h
  | write hmu hpc h => exact write_crowd hi (by rw [hpc]; rfl) h
  | wake hmu hpc hcv => exact waitLoop_crowd (by simp [LogWritter.crowd, hpc, WriterPc.need])
  | spurious hcv => exact .notify (c := s.crowd) _ 0 (Finset.erase_subset _ _)
  | lock hpc hcv => exact .rise (c := s.crowd) hcv
  | iterate hpc => exact iterate_crowd hi hpc
  | writeEntry hpc h =>
    rcases writeEntry_cases h with ⟨-, rfl⟩ | ⟨e, rest, -, -, w, ⟨-, rfl⟩ | ⟨-, rfl⟩⟩ <;>
      exact .stutter (by simp [LogWritter.crowd, hpc])
  | flush hpc =>
    unfold LogWritter.flush
    rw [writeReport_eq_self h0]
    exact .stutter (by simp [LogWritter.crowd, hpc])
  | update hpc h => exact update_crowd hpc h
  | setLogLevel => exact .stutter rfl
  | setSyncLoglevel => split <;> exact .stutter rfl
  | setFileRotateSize => exact .stutter rfl
  | stop => exact .notify (c := s.crowd) ∅ 0 (Finset.empty_subset _)

/-! ## The invariant -/

/-- The threads in the wait loop are counted, and those parked have something to wait for. -/
structure Awake (c : Crowd) : Prop where
  async : .async ∈ c.cv → c.asleep = true
  /-- When the async thread is parked, no writer waits for it. -/
  served : .async ∈ c.cv → ∀ t need, c.waits t = some need → need ≤ c.flushed_log_index
  parked : ∀ t, .writer t ∈ c.cv → ∃ need, c.waits t = some need ∧ c.flushed_log_index < need
  le : ∀ t need, c.waits t = some need → need ≤ c.written_log_index
  count : ∃ S : Finset Tid, S.card = c.blocked_threads ∧ ∀ t, t ∈ S ↔ (c.waits t).isSome = true

section Invariant

variable {c c' : Crowd}

theorem awake_join (hi : Awake c) {t : Tid} (h : c.waits t = none)
    (hlt : c.flushed_log_index < c.written_log_index + 1) :
    Awake
      { c with
        cv := {.writer t}
        waits := Function.update c.waits t (some (c.written_log_index + 1))
        blocked_threads := c.blocked_threads + 1
        written_log_index := c.written_log_index + 1 } := by
  obtain ⟨S, hcard, hS⟩ := hi.count
  have hself : Function.update c.waits t (some (c.written_log_index + 1)) t = some (c.written_log_index + 1) :=
    Function.update_self ..
  refine ⟨fun h => by simp at h, fun h => by simp at h, ?_, ?_, ?_⟩
  · intro u hu
    obtain rfl : u = t := by simpa using hu
    exact ⟨_, hself, hlt⟩
  · intro u need hu
    by_cases hut : u = t
    · subst hut
      dsimp only at hu
      rw [hself] at hu
      cases hu
      exact le_rfl
    · dsimp only at hu
      rw [Function.update_of_ne hut] at hu
      exact Nat.le_succ_of_le (hi.le u need hu)
  · have ht : t ∉ S := by rw [hS, h]; simp
    refine ⟨insert t S, by rw [Finset.card_insert_of_notMem ht, hcard], fun u => ?_⟩
    by_cases hut : u = t
    · subst hut
      simp
    · rw [Finset.mem_insert, hS]
      dsimp only
      rw [Function.update_of_ne hut]
      simp [hut]

theorem awake_leave (hi : Awake c) {t : Tid} {need : Nat} (h : c.waits t = some need)
    (hle : need ≤ c.flushed_log_index) :
    Awake { c with waits := Function.update c.waits t none, blocked_threads := c.blocked_threads - 1 } := by
  obtain ⟨S, hcard, hS⟩ := hi.count
  have stays : ∀ {u n}, Function.update c.waits t none u = some n → c.waits u = some n := by
    intro u n hu
    by_cases hut : u = t
    · subst hut
      rw [Function.update_self] at hu
      simp at hu
    · rwa [Function.update_of_ne hut] at hu
  refine ⟨hi.async, fun ha u n hu => hi.served ha u n (stays hu), ?_, fun u n hu => hi.le u n (stays hu), ?_⟩
  · intro u hu
    obtain ⟨n, hn, hlt⟩ := hi.parked u hu
    have hut : u ≠ t := by
      rintro rfl
      rw [h] at hn
      cases hn
      omega
    refine ⟨n, ?_, hlt⟩
    dsimp only
    rwa [Function.update_of_ne hut]
  · have ht : t ∈ S := by rw [hS, h]; rfl
    refine ⟨S.erase t, by rw [Finset.card_erase_of_mem ht, hcard], fun u => ?_⟩
    by_cases hut : u = t
    · subst hut
      simp
    · rw [Finset.mem_erase, hS]
      dsimp only
      rw [Function.update_of_ne hut]
      simp [hut]

/-- After the notification at the end of a batch nobody is parked. -/
theorem notified_empty (hi : Awake c) (h : c.asleep = false) {cv : Finset Waiter} (hcv : Notified c cv) : cv = ∅ := by
  obtain ⟨S, hcard, hS⟩ := hi.count
  have hwriter : ∀ x ∈ c.cv, ∃ t ∈ S, x = .writer t := by
    intro x hx
    cases x with
    | async =>
      have := hi.async hx
      rw [h] at this
      simp at this
    | writer t =>
      obtain ⟨n, hn, -⟩ := hi.parked t hx
      exact ⟨t, by rw [hS, hn]; rfl, rfl⟩
  cases hcv with
  | nobody h0 =>
    rw [h0, Finset.card_eq_zero] at hcard
    refine Finset.eq_empty_of_forall_notMem fun x hx => ?_
    obtain ⟨t, ht, -⟩ := hwriter x hx
    rw [hcard] at ht
    exact absurd ht (Finset.notMem_empty t)
  | @one h1 x hx =>
    rw [h1] at hcard
    obtain ⟨t0, rfl⟩ := Finset.card_eq_one.mp hcard
    refine Finset.eq_empty_of_forall_notMem fun y hy => ?_
    obtain ⟨hne, hy⟩ := Finset.mem_erase.mp hy
    obtain ⟨t, ht, rfl⟩ := hwriter y hy
    obtain ⟨u, hu, rfl⟩ := hwriter x hx
    rw [Finset.mem_singleton] at ht hu
    exact hne (by rw [ht, hu])
  | all => rfl

theorem awake_step (hi : Awake c) (hs : CrowdStep c c') : Awake c' := by
  cases hs with
  | notify cv n hsub =>
    refine ⟨fun h => hi.async (hsub h), fun h => hi.served (hsub h), fun t h => hi.parked t (hsub h), ?_, hi.count⟩
    exact fun t need h => (hi.le t need h).trans (Nat.le_add_right _ _)
  | join t h hlt => exact awake_join hi h hlt
  | park t need h hlt =>
    have hasync : ∀ {cv : Finset Waiter}, Waiter.async ∈ insert (.writer t) cv → Waiter.async ∈ cv := by
      intro cv ha
      simpa using ha
    refine ⟨fun ha => hi.async (hasync ha), fun ha => hi.served (hasync ha), fun u hu => ?_, hi.le, hi.count⟩
    rcases Finset.mem_insert.mp hu with heq | hu
    · cases heq
      exact ⟨need, h, hlt⟩
    · exact hi.parked u hu
  | leave t need h hle => exact awake_leave hi h hle
  | sleep h =>
    refine ⟨fun _ => rfl, fun _ t need hn => ?_, fun t ht => hi.parked t (by simpa using ht), hi.le, hi.count⟩
    show need ≤ c.flushed_log_index
    rw [h]
    exact hi.le t need hn
  | rise h => exact ⟨fun ha => absurd ha h, fun ha => absurd ha h, hi.parked, hi.le, hi.count⟩
  | finish n cv h hcv =>
    obtain rfl := notified_empty hi h hcv
    have none : ∀ {x : Waiter}, x ∉ (∅ : Finset Waiter) := fun {x} => Finset.notMem_empty x
    exact ⟨fun ha => absurd ha none, fun ha => absurd ha none, fun t ht => absurd ht none, hi.le, hi.count⟩

end Invariant

theorem awake_new (filename : String) (r : CreateResult) (n : Nat) : Awake (LogWritter.new filename r n).crowd :=
  have none : ∀ {x : Waiter}, x ∉ (∅ : Finset Waiter) := fun {x} => Finset.notMem_empty x
  ⟨fun ha => absurd ha none, fun ha => absurd ha none, fun _ ht => absurd ht none,
    fun _ _ h => by simp [LogWritter.crowd, LogWritter.new, WriterPc.need] at h,
    ∅, rfl, fun t => by simp [LogWritter.crowd, LogWritter.new, WriterPc.need]⟩

theorem reach_awake (h : Reach logger s) : Awake s.crowd := by
  refine h.invariant (I := fun s => Awake s.crowd) ?_ fun s a s' hr hi hs => ?_
  · rintro s ⟨filename, r, n, rfl⟩
    exact awake_new filename r n
  · exact awake_step hi (step_crowd (misslog_len_eq_zero hr) (reach_accounted hr) hs)

/-! ## The property -/

/-- A parked writer waits for an index that is not flushed, and while there is one, the async thread is not
parked. -/
structure NoLostWakeup (s : LogWritter) : Prop where
  writers : ∀ t, .writer t ∈ s.cv → ∃ need, s.writers t = .waiting need ∧ need > s.flushed_log_index
  async : ∀ t need, .writer t ∈ s.cv → s.writers t = .waiting need → need > s.flushed_log_index → .async ∉ s.cv

theorem need_eq_some {pc : WriterPc} {n : Nat} (h : pc.need = some n) : pc = .waiting n := by
  unfold WriterPc.need at h
  split at h
  · rw [Option.some.inj h]
  · simp at h

theorem noLostWakeup_of_awake (h : Awake s.crowd) : NoLostWakeup s where
  writers t ht := by
    obtain ⟨need, hn, hlt⟩ := h.parked t ht
    exact ⟨need, need_eq_some hn, hlt⟩
  async t need _ hw hlt ha := by
    have hle := h.served ha t need (by simp [LogWritter.crowd, hw, WriterPc.need])
    exact absurd hlt (Nat.not_lt.mpr hle)

/-- **No wake-up is lost**: in every state of every run no writer is parked whose index is flushed, and the async
thread is not parked while a writer is. -/
theorem noLostWakeup_always (filename : String) (r : CreateResult) (n : Nat) (acts : List Act) :
    Always logger NoLostWakeup (.new filename r n) acts := by
  refine always_of_reach (fun s hr => noLostWakeup_of_awake (reach_awake hr)) ?_ acts
  exact .init ⟨filename, r, n, rfl⟩

end BeanRaft.Logger
