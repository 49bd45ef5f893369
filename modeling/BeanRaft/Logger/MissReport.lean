import Mathlib.Algebra.BigOperators.Group.List.Basic
import BeanRaft.Logger.Steps

/-!
# BeanRaft.Logger.MissReport — are the dropped logs reported?

* `Conserved`: the dropped `writeLog` calls are the count in `miss_logs`, the counts of the report lines handed to
  `FileWritter::write` and the count prepared in `misslog_buf`.
* `MissStep`: what an action can do to the variables of the report.  The test `misslog_len > 0` of line 475 never
  holds (`misslog_len_eq_zero`), and what `snprintf` leaves in `misslog_buf` is never a report line
  (`snprintf_ne_missLine`).
* `conserved_iff`: so the law holds in every state of a run if and only if no batch starts with `miss_logs > 0` and
  no drop finds the `int` at its maximum.
-/

namespace BeanRaft.Logger

open Lts CInt

variable {s s' : LogWritter}

/-- The variables of the report. -/
structure Misses where
  miss_logs : Int
  misslog_buf : Text
  misslog_len : Nat
  dropped : Nat
  reported : List Text

def LogWritter.misses (s : LogWritter) : Misses :=
  ⟨s.miss_logs, s.misslog_buf, s.misslog_len, s.dropped, s.reported⟩

/-- The action is a `writeLog` call giving up its record. -/
def LogWritter.drops (s : LogWritter) : Act → Prop
  | .miss t => ∃ level f, s.writers t = .missed level f ∧ level < s.sync_loglevel
  | .retryMiss _ => True
  | _ => False

/-- The action starts a batch of asyncRun. -/
def LogWritter.startsBatch (s : LogWritter) : Act → Prop
  | .iterate => s.memtable ≠ [] ∧ (s.running = true → s.disk_full_try_times = 0)
  | _ => False

/-- What an action can do to the variables of the report. -/
inductive MissStep (s : LogWritter) (a : Act) (m : Misses) : Misses → Prop
  | stutter (hd : ¬ s.drops a) (hb : s.startsBatch a → m.miss_logs ≤ 0) : MissStep s a m m
  | drop (hd : s.drops a) (hb : ¬ s.startsBatch a) :
    MissStep s a m { m with miss_logs := int32 (m.miss_logs + 1), dropped := m.dropped + 1 }
  | prepare (hd : ¬ s.drops a) (hb : s.startsBatch a) (hm : 0 < m.miss_logs) :
    MissStep s a m { m with misslog_buf := snprintf sizeofInt (missLine m.miss_logs), miss_logs := 0 }
  | report (hd : ¬ s.drops a) (hb : ¬ s.startsBatch a) (hl : 0 < m.misslog_len) :
    MissStep s a m { m with reported := m.reported ++ [m.misslog_buf.take m.misslog_len], misslog_len := 0 }

theorem notifyOne_misses {x : Waiter} (h : s.notifyOne x = some s') : s'.misses = s.misses := by
  rcases notifyOne_cases h with ⟨-, rfl⟩ | ⟨-, rfl⟩ <;> rfl

theorem waitLoop_misses (t : Tid) (n : Nat) : (s.waitLoop t n).misses = s.misses := by
  rcases waitLoop_cases s t n with ⟨-, h⟩ | ⟨-, h⟩ <;> rw [h] <;> rfl

theorem write_misses {t : Tid} {f : Bool} {m : Nat} {text : Text} {x : Waiter} (h : s.write t f m text x = some s') :
    s'.misses = s.misses := by
  rcases write_cases h with ⟨-, rfl⟩ | ⟨-, rfl⟩ | ⟨-, rfl | rfl | ⟨-, hn⟩⟩
  · rfl
  · exact waitLoop_misses t _
  · rfl
  · rfl
  · rw [notifyOne_misses hn]; rfl

theorem update_misses {b : Batch} {x : Waiter} (h : s.update b x = some s') : s'.misses = s.misses := by
  have he : (s.endBatch b).misses = s.misses := by
    unfold LogWritter.endBatch LogWritter.splice
    split <;> rfl
  rw [← he]
  rcases update_cases h with ⟨-, hn⟩ | ⟨-, rfl⟩ | ⟨-, rfl⟩
  · exact notifyOne_misses hn
  · rfl
  · rfl

theorem iterate_missStep (s : LogWritter) : MissStep s .iterate s.misses s.iterate.misses := by
  have hd : ¬ s.drops .iterate := id
  rcases iterate_cases s with ⟨-, hm, h⟩ | ⟨hr, -, hk, h⟩ | ⟨-, hm, h⟩ | ⟨hm, h⟩
  · rw [h]; exact .stutter hd fun hb => absurd hm hb.1
  · rw [h]; exact .stutter hd fun hb => by have := hb.2 hr; omega
  · rw [h]; exact .stutter hd fun hb => absurd hm hb.1
  · by_cases hp : 0 < s.miss_logs
    · have hb : s.startsBatch .iterate := by
        refine ⟨hm, fun hr => ?_⟩
        by_contra hk
        have h' : s.iterate = { s with disk_full_try_times := s.disk_full_try_times - 1 } := by
          unfold LogWritter.iterate
          rw [if_neg (fun hc => hm hc.2), if_pos ⟨Nat.pos_of_ne_zero hk, hr⟩]
        have := congrArg LogWritter.memtable (h'.symm.trans h)
        exact hm this
      have hq : s.prepareReport =
          { s with misslog_buf := snprintf sizeofInt (missLine s.miss_logs), miss_logs := 0 } := if_pos hp
      rw [h, hq]
      exact .prepare hd hb hp
    · have hq : s.prepareReport = s := if_neg hp
      rw [h, hq]
      exact .stutter hd fun _ => Int.not_lt.mp hp

theorem writeReport_eq_self {cr : CreateResult} {fw : FwriteResult} (h : s.misslog_len = 0) :
    s.writeReport cr fw = s := if_neg (by omega)

theorem step_misses {a : Act} (h : s.step a = some s') : MissStep s a s.misses s'.misses := by
  have stay : ∀ {m : Misses}, m = s.misses → ¬ s.drops a → ¬ s.startsBatch a → MissStep s a s.misses m := by
    rintro m rfl hd hb
    exact .stutter hd fun h => absurd h hb
  cases step_did h with
  | writeLog => unfold LogWritter.writeLog; split <;> exact stay rfl id id
  | allocate => unfold LogWritter.allocate; split <;> exact stay rfl id id
  | @miss t level f _ hpc =>
    unfold LogWritter.miss
    split_ifs with hl
    · exact .drop ⟨level, f, hpc, hl⟩ id
    · refine stay rfl ?_ id
      rintro ⟨level', f', hpc', hl'⟩
      rw [hpc] at hpc'
      cases hpc'
      exact hl hl'
  | retry => unfold LogWritter.retry; split <;> exact stay rfl id id
  | retryMiss => exact .drop trivial id
  | format _ _ h => exact stay (write_misses h) id id
  | write _ _ h => exact stay (write_misses h) id id
  | wake => exact stay (waitLoop_misses _ _) id id
  | spurious => exact stay rfl id id
  | lock => exact stay rfl id id
  | iterate => exact iterate_missStep s
  | writeEntry _ h =>
    rcases writeEntry_cases h with ⟨-, rfl⟩ | ⟨e, rest, -, -, w, ⟨-, rfl⟩ | ⟨-, rfl⟩⟩ <;> exact stay rfl id id
  | flush =>
    unfold LogWritter.flush LogWritter.writeReport
    split_ifs with hl
    · exact .report id id hl
    · exact stay rfl id id
  | update _ h => exact stay (update_misses h) id id
  | setLogLevel => exact stay rfl id id
  | setSyncLoglevel => split <;> exact stay rfl id id
  | setFileRotateSize => exact stay rfl id id
  | stop => exact stay rfl id id

/-- The `misslog_len` that line 475 tests is never assigned. -/
theorem misslog_len_eq_zero (h : Reach logger s) : s.misslog_len = 0 := by
  refine h.invariant (I := fun s => s.misslog_len = 0) ?_ fun s a s' _ h0 hs => ?_
  · rintro s ⟨filename, r, n, rfl⟩
    rfl
  · show s'.misses.misslog_len = 0
    have hm := step_misses hs
    generalize s'.misses = m' at hm
    cases hm with
    | stutter => exact h0
    | drop => exact h0
    | prepare => exact h0
    | report => rfl

/-! ## The conservation law -/

/-- The report of `n` missed logs waits in `misslog_buf` to be written in this iteration. -/
def LogWritter.Prepared (s : LogWritter) (n : Nat) : Prop :=
  ((∃ b, s.async = .batch b) ∨ ∃ b, s.async = .flushing b) ∧ s.misslog_buf = missLine n

/-- The drops are the current `miss_logs`, the counts of the lines handed to `FileWritter::write`, and the count
that is prepared. -/
def Conserved (s : LogWritter) : Prop :=
  ∃ (ns : List Nat) (p : Nat), s.reported = ns.map (fun n : Nat => missLine n) ∧ (p = 0 ∨ s.Prepared p) ∧
    (s.dropped : Int) = s.miss_logs + ns.sum + p

/-- No batch starts with missed logs, and no drop finds `miss_logs` at the maximum of an `int`. -/
def MissOk (s : LogWritter) (a : Act) : Prop :=
  (s.startsBatch a → s.miss_logs ≤ 0) ∧ (s.drops a → s.miss_logs < INT_MAX)

theorem lt_length_missLine (n : Int) : 3 < (missLine n).length := by
  simp [missLine]

theorem ne_missLine {text : Text} (h : text.length ≤ 3) (n : Int) : text ≠ missLine n := by
  rintro rfl
  exact absurd h (Nat.not_le.mpr (lt_length_missLine n))

/-- The buffer holds three bytes of the line at most. -/
theorem snprintf_ne_missLine (m n : Int) : snprintf sizeofInt (missLine m) ≠ missLine n :=
  ne_missLine (List.length_take_le _ _) n

/-- As long as nothing was reset, `miss_logs` is the number of drops and there is no report. -/
structure Missed (m : Misses) : Prop where
  count : m.miss_logs = m.dropped
  le : m.miss_logs ≤ INT_MAX
  buf : m.misslog_buf = []
  len : m.misslog_len = 0
  reported : m.reported = []

theorem conserved_of_missed (h : Missed s.misses) : Conserved s :=
  ⟨[], 0, h.reported, .inl rfl, by simp; exact h.count.symm⟩

theorem missed_step {a : Act} {m m' : Misses} (hi : Missed m) (hb : s.startsBatch a → m.miss_logs ≤ 0)
    (hd : s.drops a → m.miss_logs < INT_MAX) (h : MissStep s a m m') : Missed m' := by
  cases h with
  | stutter => exact hi
  | drop hd' =>
    have hlt := hd hd'
    have hc := hi.count
    have h32 : int32 (m.miss_logs + 1) = m.miss_logs + 1 :=
      int32_of_range (by omega) (by unfold INT_MAX at hlt; omega)
    exact ⟨by dsimp only; rw [h32]; omega, by dsimp only; omega, hi.buf, hi.len, hi.reported⟩
  | prepare _ hb' hm => exact absurd hm (Int.not_lt.mpr (hb hb'))
  | report _ _ hl => have := hi.len; omega

/-- Without a report line anywhere the law says that `miss_logs` is the number of drops. -/
theorem Conserved.count (h : Conserved s) (hrep : s.reported = []) (hbuf : ∀ n : Nat, s.misslog_buf ≠ missLine n) :
    (s.dropped : Int) = s.miss_logs := by
  obtain ⟨ns, p, hr, hp, hsum⟩ := h
  have hns : ns = [] := List.map_eq_nil_iff.mp (hr.symm.trans hrep)
  have hp0 : p = 0 := hp.resolve_right fun hq => hbuf p hq.2
  rw [hns, hp0, List.sum_nil] at hsum
  omega

/-- A step that resets a positive count, or overflows it, breaks the law. -/
theorem not_conserved_step {a : Act} (hi : Missed s.misses) (hno : ¬ MissOk s a) (h : s.step a = some s') :
    ¬ Conserved s' := by
  have hc : s.miss_logs = s.dropped := hi.count
  intro hcon
  have key : ∀ {m : Misses}, s'.misses = m → m.reported = [] → (∀ n : Nat, m.misslog_buf ≠ missLine n) →
      (m.dropped : Int) = m.miss_logs := by
    rintro m rfl hrep hbuf
    exact hcon.count hrep hbuf
  have hm := step_misses h
  generalize hm' : s'.misses = m' at hm
  cases hm with
  | stutter hd hb => exact hno ⟨hb, fun h => absurd h hd⟩
  | drop hd hb =>
    have hmax : INT_MAX ≤ s.miss_logs := by
      by_contra hlt
      exact hno ⟨fun h => absurd h hb, fun _ => Int.not_le.mp hlt⟩
    have h32 := int32_range (s.miss_logs + 1)
    have hk := key hm' hi.reported fun n => by rw [hi.buf]; exact ne_missLine (by simp) n
    change ((s.dropped + 1 : Nat) : Int) = int32 (s.miss_logs + 1) at hk
    unfold INT_MAX at hmax
    omega
  | prepare _ _ hpos =>
    have hk := key hm' hi.reported fun n => snprintf_ne_missLine _ n
    change (s.dropped : Int) = 0 at hk
    have : 0 < s.miss_logs := hpos
    omega
  | report _ _ hl => have := hi.len; omega

theorem missed_new (filename : String) (r : CreateResult) (n : Nat) :
    Missed (LogWritter.new filename r n).misses :=
  ⟨rfl, by show (0 : Int) ≤ INT_MAX; decide, rfl, rfl, rfl⟩

/-- **When drops are reported**: over any run of the logger the conservation law holds in every state if and only if
no batch starts with `miss_logs > 0` (its report would be lost) and no drop finds `miss_logs` at `INT_MAX`. -/
theorem conserved_iff (filename : String) (r : CreateResult) (n : Nat) (acts : List Act) :
    Always logger Conserved (.new filename r n) acts ↔ StepsOk logger MissOk (.new filename r n) acts :=
  always_iff_stepsOk (I := fun s => Missed s.misses) (fun _ h => conserved_of_missed h)
    (fun _ _ _ hi hok hs => missed_step hi hok.1 hok.2 (step_misses hs))
    (fun _ _ _ hi hno hs => not_conserved_step hi hno hs) (missed_new filename r n) acts

/-! ## A run that loses a report -/

/-- One `writeLog` call of thread 0, from its entry to its return. -/
def oneLog : List Act := [.writeLog 0 LOG_INFO, .allocate 0, .format 0 ['\n'] .async]

def entries (k : Nat) : List Entry := (List.range k).map fun i => ⟨i, ['\n'], i⟩

/-- The logger after `k` calls that the async thread has not seen yet. -/
def filled (k : Nat) : LogWritter :=
  { start with
    alloc := ⟨List.range' k (MAX_LOG_ENTRY - k)⟩
    memtable := entries k
    pushed := entries k
    written_log_index := k
    memtable_size := k }

theorem exec_oneLog {k : Nat} (hk : k < MAX_LOG_ENTRY) : logger.exec (filled k) oneLog = some (filled (k + 1)) := by
  have hfree : List.range' k (MAX_LOG_ENTRY - k) = k :: List.range' (k + 1) (MAX_LOG_ENTRY - (k + 1)) := by
    rw [show MAX_LOG_ENTRY - k = MAX_LOG_ENTRY - (k + 1) + 1 by omega, List.range'_succ]
  have hsize : ¬ k + 1 > 10240 := by
    unfold MAX_LOG_ENTRY at hk
    omega
  have hent : entries (k + 1) = entries k ++ [⟨k, ['\n'], k⟩] := by simp [entries, List.range_succ]
  have hlen : (entries k).length = k := by simp [entries]
  have h1 : (filled k).step (.writeLog 0 LOG_INFO) =
      some ((filled k).setWriter 0 (.allocating LOG_INFO false)) := rfl
  have h2 : ((filled k).setWriter 0 (.allocating LOG_INFO false)).step (.allocate 0) =
      some { (filled k).setWriter 0 (.formatting k false) with alloc := (filled (k + 1)).alloc } := by
    simp [LogWritter.step, LogWritter.setWriter, LogWritter.allocate, LoggerAllocator.allocate, filled, hfree]
  have h3 : ({ (filled k).setWriter 0 (.formatting k false) with
      alloc := (filled (k + 1)).alloc } : LogWritter).step (.format 0 ['\n'] .async) = some (filled (k + 1)) := by
    simp [LogWritter.step, LogWritter.setWriter, LogWritter.write, LogWritter.push, LogWritter.muFree, filled, start,
      LogWritter.new, Entry.message_len, hent, hlen, hsize]
  simp [oneLog, logger, h1, h2, h3]

/-- The calls take one buffer after the other. -/
theorem exec_fill : ∀ k, k ≤ MAX_LOG_ENTRY →
    logger.exec start (List.replicate k oneLog).flatten = some (filled k)
  | 0, _ => by simp [filled, start, LogWritter.new, LoggerAllocator.new, List.range_eq_range', entries]
  | k + 1, hk => by
    rw [List.replicate_succ', List.flatten_append, exec_append, exec_fill k (by omega)]
    simpa using exec_oneLog (k := k) (by omega)

/-- Every buffer is queued, one more call is dropped, and asyncRun starts a batch. -/
def lostRun : List Act :=
  (List.replicate MAX_LOG_ENTRY oneLog).flatten ++ [.writeLog 0 LOG_INFO, .allocate 0, .miss 0, .lock, .iterate]

theorem lostRun_not_conserved : ¬ Always logger Conserved start lostRun := by
  intro h
  have hrun : (logger.exec start lostRun).map
      (fun s => (s.dropped, s.miss_logs, s.reported, s.misslog_buf.length)) = some (1, 0, [], 3) := by
    rw [lostRun, exec_append, exec_fill _ le_rfl]
    decide +kernel
  obtain ⟨s, hs, hv⟩ := Option.map_eq_some_iff.mp hrun
  simp only [Prod.mk.injEq] at hv
  obtain ⟨hd, hm, hrep, hbuf⟩ := hv
  have hc := (h.exec hs).count hrep fun n => ne_missLine (by omega) n
  rw [hd, hm] at hc
  simp at hc

end BeanRaft.Logger
