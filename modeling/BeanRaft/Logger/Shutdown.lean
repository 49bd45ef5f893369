import Mathlib.Data.Nat.Count
import BeanRaft.Lib.Behavior
import BeanRaft.Logger.Steps

/-!
# BeanRaft.Logger.Shutdown — does asyncRun exit after the destructor has cleared running?

The logger after the last push, from any reachable state with `running = false`, over every sequence of results of
`FileWritter::write`.

* `shutdown o`: the logger without further pushes, where the `k`-th call of `write` for a record returns `o k`.
* `Queue`: the two lists that asyncRun empties, and its place.  `QueueStep`: what an action does to it once `running`
  is cleared; the guard on `disk_full_try_times` is not taken any more.
* `exits_iff`: asyncRun exits exactly when the results hold a `true` for every record that is not written; a disk that
  stays full keeps it in the loop.
-/

namespace BeanRaft.Logger

open Lts

variable {s s' : LogWritter} {a : Act} {o : Nat → Bool}

/-- The action pushes a record. -/
def Act.pushes : Act → Bool
  | .format _ _ _ => true
  | .write _ _ _ _ _ => true
  | _ => false

/-- The action is one of asyncRun. -/
def Act.ofAsync : Act → Prop
  | .lock | .iterate | .writeEntry _ _ _ | .flush _ _ _ | .update _ => True
  | _ => False

/-- What `FileWritter::write` returns for a record in the action. -/
def LogWritter.wrote (s : LogWritter) : Act → Option Bool
  | .writeEntry rot cr fw =>
    match s.async with
    | .batch b => b.rest.head?.map fun e =>
        ((s.file_writer.rotateIfNeed s.max_file_size rot).write (.record e) cr fw).2
    | _ => none
  | _ => none

/-- The logger without pushes; the second component counts the calls of `write`. -/
def shutdown (o : Nat → Bool) : System (LogWritter × Nat) Act where
  init x := Reach logger x.1 ∧ x.1.running = false ∧ x.2 = 0
  step x a :=
    if a.pushes then none
    else
      match x.1.wrote a with
      | none => (x.1.step a).map fun s => (s, x.2)
      | some r => if r = o x.2 then (x.1.step a).map fun s => (s, x.2 + 1) else none

/-- The asynchronous thread is out of its loop. -/
def Exited (x : LogWritter × Nat) : Prop := x.1.async = .exited

/-- The calls of `write` among the first `k` that return true. -/
def trues (o : Nat → Bool) (k : Nat) : Nat := Nat.count (fun i => o i = true) k

/-! ## The queue of asyncRun -/

structure Queue where
  async : AsyncPc
  memtable : List Entry

def LogWritter.queue (s : LogWritter) : Queue := ⟨s.async, s.memtable⟩

/-- The records that are not written. -/
def Queue.remaining (q : Queue) : Nat :=
  match q.async with
  | .batch b | .flushing b | .relock b => b.rest.length + q.memtable.length
  | _ => q.memtable.length

def LogWritter.remaining (s : LogWritter) : Nat := s.queue.remaining

/-- What an action does to the queue after `running` was cleared, with the result of its call of `write`. -/
inductive QueueStep (q : Queue) : Act → Option Bool → Queue → Prop
  | other {a : Act} (h : ¬ a.ofAsync) : QueueStep q a none q
  | lock (h : q.async = .waiting) : QueueStep q .lock none { q with async := .top }
  | exit (h : q.async = .top) (hm : q.memtable = []) : QueueStep q .iterate none { q with async := .exited }
  | swap (h : q.async = .top) (hm : q.memtable ≠ []) :
    QueueStep q .iterate none ⟨.batch ⟨[], q.memtable, 0, 0⟩, []⟩
  | done {rot cr : CreateResult} {fw : FwriteResult} (b : Batch) (h : q.async = .batch b) (hr : b.rest = []) :
    QueueStep q (.writeEntry rot cr fw) none { q with async := .flushing b }
  | refused {rot cr : CreateResult} {fw : FwriteResult} (b : Batch) (h : q.async = .batch b) (hr : b.rest ≠ []) :
    QueueStep q (.writeEntry rot cr fw) (some false) { q with async := .flushing b }
  | written {rot cr : CreateResult} {fw : FwriteResult} (b b' : Batch) (e : Entry) (h : q.async = .batch b)
    (hr : b.rest = e :: b'.rest) : QueueStep q (.writeEntry rot cr fw) (some true) { q with async := .batch b' }
  | flush {cr : CreateResult} {fw : FwriteResult} {e : Errno} (b : Batch) (h : q.async = .flushing b) :
    QueueStep q (.flush cr fw e) none { q with async := .relock b }
  | update {x : Waiter} (b : Batch) (h : q.async = .relock b) :
    QueueStep q (.update x) none ⟨.top, b.rest ++ q.memtable⟩

theorem notifyOne_queue {x : Waiter} (h : s.notifyOne x = some s') : s'.queue = s.queue ∧ s'.running = s.running := by
  rcases notifyOne_cases h with ⟨-, rfl⟩ | ⟨-, rfl⟩ <;> exact ⟨rfl, rfl⟩

theorem waitLoop_queue (t : Tid) (n : Nat) : (s.waitLoop t n).queue = s.queue ∧ (s.waitLoop t n).running = s.running := by
  rcases waitLoop_cases s t n with ⟨-, h⟩ | ⟨-, h⟩ <;> rw [h] <;> exact ⟨rfl, rfl⟩

theorem writeLog_queue (t : Tid) (level : Int) :
    (s.writeLog t level).queue = s.queue ∧ (s.writeLog t level).running = s.running := by
  unfold LogWritter.writeLog
  split <;> exact ⟨rfl, rfl⟩

theorem allocate_queue (t : Tid) (level : Int) (f : Bool) :
    (s.allocate t level f).queue = s.queue ∧ (s.allocate t level f).running = s.running := by
  unfold LogWritter.allocate
  split <;> exact ⟨rfl, rfl⟩

theorem miss_queue (t : Tid) (level : Int) (f : Bool) :
    (s.miss t level f).queue = s.queue ∧ (s.miss t level f).running = s.running := by
  unfold LogWritter.miss
  split <;> exact ⟨rfl, rfl⟩

theorem retry_queue (t : Tid) (f : Bool) : (s.retry t f).queue = s.queue ∧ (s.retry t f).running = s.running := by
  unfold LogWritter.retry
  split <;> exact ⟨rfl, rfl⟩

/-- Without `running` a turn of the loop does not wait. -/
theorem iterate_queueStep (hstop : s.running = false) (hpc : s.async = .top) :
    QueueStep s.queue .iterate none s.iterate.queue ∧ s.iterate.running = false := by
  rcases iterate_cases s with ⟨hr, -⟩ | ⟨hr, -⟩ | ⟨-, hm, h⟩ | ⟨hm, h⟩
  · simp [hstop] at hr
  · simp [hstop] at hr
  · rw [h]
    exact ⟨.exit hpc hm, hstop⟩
  · rw [h]
    refine ⟨.swap hpc hm, ?_⟩
    show s.prepareReport.running = false
    unfold LogWritter.prepareReport
    split <;> exact hstop

theorem writeEntry_queueStep {b : Batch} {rot cr : CreateResult} {fw : FwriteResult} (hpc : s.async = .batch b)
    (h : s.writeEntry b rot cr fw = some s') :
    QueueStep s.queue (.writeEntry rot cr fw) (s.wrote (.writeEntry rot cr fw)) s'.queue ∧ s'.running = s.running := by
  have hwrote : s.wrote (.writeEntry rot cr fw) = b.rest.head?.map fun e =>
      ((s.file_writer.rotateIfNeed s.max_file_size rot).write (.record e) cr fw).2 := by
    simp only [LogWritter.wrote, hpc]
  rw [hwrote]
  rcases writeEntry_cases h with ⟨hr, rfl⟩ | ⟨e, rest, hr, -, w, ⟨hres, rfl⟩ | ⟨hres, rfl⟩⟩
  · rw [hr]
    exact ⟨.done b hpc hr, rfl⟩
  · rw [hr, List.head?_cons, Option.map_some, hres]
    exact ⟨.refused b hpc (by rw [hr]; exact List.cons_ne_nil _ _), rfl⟩
  · rw [hr, List.head?_cons, Option.map_some, hres]
    exact ⟨.written b _ e hpc hr, rfl⟩

theorem flush_queue (b : Batch) (cr : CreateResult) (fw : FwriteResult) (errno : Errno) :
    (s.flush b cr fw errno).queue = ⟨.relock b, s.memtable⟩ ∧ (s.flush b cr fw errno).running = s.running := by
  unfold LogWritter.flush LogWritter.writeReport
  split <;> exact ⟨rfl, rfl⟩

theorem update_queue {b : Batch} {x : Waiter} (h : s.update b x = some s') :
    s'.queue = ⟨.top, b.rest ++ s.memtable⟩ ∧ s'.running = s.running := by
  have hend : (s.endBatch b).queue = ⟨.top, b.rest ++ s.memtable⟩ ∧ (s.endBatch b).running = s.running := by
    refine ⟨?_, ?_⟩
    · rw [← endBatch_memtable]
      rfl
    · unfold LogWritter.endBatch LogWritter.splice
      split_ifs <;> rfl
  rcases update_cases h with ⟨-, hn⟩ | ⟨-, rfl⟩ | ⟨-, rfl⟩
  · obtain ⟨h1, h2⟩ := notifyOne_queue hn
    exact ⟨h1.trans hend.1, h2.trans hend.2⟩
  · exact hend
  · exact hend

/-- **Every step without a push does one of these things.** -/
theorem step_queue (hstop : s.running = false) (ha : a.pushes = false) (h : s.step a = some s') :
    QueueStep s.queue a (s.wrote a) s'.queue ∧ s'.running = false := by
  have other : s'.queue = s.queue ∧ s'.running = s.running → ¬ a.ofAsync → s.wrote a = none →
      QueueStep s.queue a (s.wrote a) s'.queue ∧ s'.running = false := by
    rintro ⟨h1, h2⟩ hno hw
    rw [h1, hw, h2]
    exact ⟨.other hno, hstop⟩
  cases step_did h with
  | writeLog => exact other (writeLog_queue _ _) id rfl
  | allocate => exact other (allocate_queue _ _ _) id rfl
  | miss => exact other (miss_queue _ _ _) id rfl
  | retry => exact other (retry_queue _ _) id rfl
  | retryMiss => exact other ⟨rfl, rfl⟩ id rfl
  | format => simp [Act.pushes] at ha
  | write => simp [Act.pushes] at ha
  | wake => exact other (waitLoop_queue _ _) id rfl
  | spurious => exact other ⟨rfl, rfl⟩ id rfl
  | lock hpc => exact ⟨.lock hpc, hstop⟩
  | iterate hpc => exact iterate_queueStep hstop hpc
  | writeEntry hpc hw =>
    obtain ⟨h1, h2⟩ := writeEntry_queueStep hpc hw
    exact ⟨h1, h2.trans hstop⟩
  | flush hpc =>
    obtain ⟨h1, h2⟩ := flush_queue (s := s) _ _ _ _
    rw [h1, h2]
    exact ⟨.flush _ hpc, hstop⟩
  | update hpc hu =>
    obtain ⟨h1, h2⟩ := update_queue hu
    rw [h1, h2]
    exact ⟨.update _ hpc, hstop⟩
  | setLogLevel => exact other ⟨rfl, rfl⟩ id rfl
  | setSyncLoglevel =>
    refine other ?_ id rfl
    split <;> exact ⟨rfl, rfl⟩
  | setFileRotateSize => exact other ⟨rfl, rfl⟩ id rfl
  | stop => exact other ⟨rfl, hstop.symm⟩ id rfl

/-! ## The rank -/

section Rank

variable {q q' : Queue} {r : Option Bool}

/-- Where asyncRun is on its way to the next call of `write`, or to the end. -/
def Queue.place (q : Queue) : Nat :=
  match q.async with
  | .batch b => if b.rest = [] then 5 else 1
  | .flushing _ => 4
  | .relock _ | .waiting => 3
  | .top => 2
  | .exited => 0

/-- A call of `write` that returns true takes one record off. -/
theorem QueueStep.remaining (h : QueueStep q a r q') :
    q'.remaining + (if r = some true then 1 else 0) = q.remaining := by
  cases h with
  | other => rfl
  | lock h => simp [Queue.remaining, h]
  | exit h => simp [Queue.remaining, h]
  | swap h => simp [Queue.remaining, h]
  | done b h => simp [Queue.remaining, h]
  | refused b h => simp [Queue.remaining, h]
  | written b b' e h hr =>
    simp [Queue.remaining, h, hr]
    omega
  | flush b h => simp [Queue.remaining, h]
  | update b h => simp [Queue.remaining, h]

/-- A call of `write` is made for a record that is not written. -/
theorem QueueStep.pos (h : QueueStep q a r q') (hr : r ≠ none) : 0 < q.remaining := by
  cases h with
  | refused b h hrest =>
    have := List.length_pos_of_ne_nil hrest
    simp only [Queue.remaining, h]
    omega
  | written b b' e h hrest =>
    simp only [Queue.remaining, h, hrest, List.length_cons]
    omega
  | _ => exact absurd rfl hr

/-- Any other step of asyncRun brings it nearer, and a call of `write` sets it back by less than five. -/
theorem QueueStep.place_lt (h : QueueStep q a r q') (ha : a.ofAsync) :
    q'.place < q.place + (if r = none then 0 else 5) := by
  cases h with
  | other hno => exact absurd ha hno
  | lock h => simp [Queue.place, h]
  | exit h => simp [Queue.place, h]
  | swap h hm => simp [Queue.place, h, hm]
  | done b h hr => simp [Queue.place, h, hr]
  | refused b h hr => simp [Queue.place, h, hr]
  | written b b' e h hr =>
    simp only [Queue.place, h, hr]
    by_cases hb : b'.rest = [] <;> simp [hb]
  | flush b h => simp [Queue.place, h]
  | update b h => simp [Queue.place, h]

/-- The other threads leave the queue alone. -/
theorem QueueStep.same (h : QueueStep q a r q') (ha : ¬ a.ofAsync) : q' = q ∧ r = none := by
  cases h with
  | other => exact ⟨rfl, rfl⟩
  | _ => exact absurd trivial ha

/-- asyncRun exits with nothing left to write. -/
theorem QueueStep.exits (h : QueueStep q a r q') (hne : q.async ≠ .exited) (he : q'.async = .exited) :
    q'.remaining = 0 := by
  cases h with
  | other => exact absurd he hne
  | exit h hm => simp [Queue.remaining, hm]
  | lock | swap | done | refused | written | flush | update => simp at he

end Rank

/-! ## The property -/

section Exit

variable {x x' : LogWritter × Nat} {n : Nat}

/-- A step of the shutdown is one of the logger, and the result of its `write` is the next one of the sequence. -/
theorem shutdown_cases (h : (shutdown o).step x a = some x') : a.pushes = false ∧ x.1.step a = some x'.1 ∧
    (x.1.wrote a = none ∧ x'.2 = x.2 ∨ x.1.wrote a = some (o x.2) ∧ x'.2 = x.2 + 1) := by
  simp only [shutdown] at h
  split_ifs at h with hp
  cases hw : x.1.wrote a with
  | none =>
    rw [hw] at h
    obtain ⟨s', hs, rfl⟩ := Option.map_eq_some_iff.mp h
    exact ⟨by simpa using hp, hs, .inl ⟨rfl, rfl⟩⟩
  | some r =>
    rw [hw] at h
    dsimp only at h
    split_ifs at h with hr
    obtain ⟨s', hs, rfl⟩ := Option.map_eq_some_iff.mp h
    exact ⟨by simpa using hp, hs, .inr ⟨by rw [hr], rfl⟩⟩

/-- Of `n` records at the start, those that are not written any more were each written by a call that returned true. -/
structure Draining (o : Nat → Bool) (n : Nat) (x : LogWritter × Nat) : Prop where
  stopped : x.1.running = false
  count : x.1.remaining + trues o x.2 = n

theorem draining_step (h : Draining o n x) (hs : (shutdown o).step x a = some x') : Draining o n x' := by
  obtain ⟨hstop, hcount⟩ := h
  obtain ⟨ha, hstep, hw⟩ := shutdown_cases hs
  obtain ⟨hq, hstop'⟩ := step_queue hstop ha hstep
  refine ⟨hstop', ?_⟩
  have hu : x'.1.remaining + (if x.1.wrote a = some true then 1 else 0) = x.1.remaining := hq.remaining
  rcases hw with ⟨hnone, hk⟩ | ⟨hsome, hk⟩
  · simp only [hnone, reduceCtorEq, if_false] at hu
    rw [hk]
    omega
  · have ht : trues o (x.2 + 1) = trues o x.2 + if o x.2 = true then 1 else 0 := Nat.count_succ _ _
    rw [hk, ht]
    rw [hsome] at hu
    simp only [Option.some.injEq] at hu
    omega

/-- When asyncRun exits, as many calls have returned true as there were records. -/
theorem enough_of_exit (h : Draining o n x) (hne : ¬ Exited x) (hs : (shutdown o).step x a = some x')
    (he : Exited x') : n ≤ trues o x'.2 := by
  obtain ⟨ha, hstep, -⟩ := shutdown_cases hs
  obtain ⟨hq, -⟩ := step_queue h.stopped ha hstep
  have h0 : x'.1.remaining = 0 := hq.exits hne he
  have := (draining_step h hs).count
  omega

/-- The calls that are still to be made while results are needed, and the place on the way to the next one. -/
def shutdownRank (k : Nat) (x : LogWritter × Nat) : Nat := 5 * (k - x.2) + x.1.queue.place

theorem shutdownRank_step {k : Nat} (hk : n ≤ trues o k) (h : Draining o n x)
    (hs : (shutdown o).step x a = some x') :
    shutdownRank k x' ≤ shutdownRank k x ∧ (a.ofAsync → shutdownRank k x' < shutdownRank k x) := by
  obtain ⟨hstop, hcount⟩ := h
  obtain ⟨ha, hstep, hw⟩ := shutdown_cases hs
  obtain ⟨hq, -⟩ := step_queue hstop ha hstep
  unfold shutdownRank
  by_cases hasync : a.ofAsync
  · have hlt := hq.place_lt hasync
    rcases hw with ⟨hnone, hx⟩ | ⟨hsome, hx⟩
    · rw [if_pos hnone] at hlt
      rw [hx]
      exact ⟨by omega, fun _ => by omega⟩
    · -- a call is made, so results are still needed
      have hne : x.1.wrote a ≠ none := by simp [hsome]
      have hpos : 0 < x.1.remaining := hq.pos hne
      have hlt' : x.2 < k := by
        by_contra hle
        have := Nat.count_monotone (fun i => o i = true) (Nat.le_of_not_lt hle)
        unfold trues at hk hcount
        omega
      rw [if_neg hne] at hlt
      rw [hx]
      exact ⟨by omega, fun _ => by omega⟩
  · have hsame : x'.1.queue = x.1.queue ∧ x.1.wrote a = none := hq.same hasync
    have hx : x'.2 = x.2 := by
      rcases hw with ⟨-, hx⟩ | ⟨hsome, -⟩
      · exact hx
      · simp [hsame.2] at hsome
    rw [hsame.1, hx]
    exact ⟨Nat.le_refl _, fun hno => absurd hno hasync⟩

/-- **When the shutdown ends**: asyncRun exits, in a run in which it is scheduled again and again, if and only if it had
exited before or `write` returns true as often as there are records to write. -/
theorem exits_iff {o : Nat → Bool} (b : Behavior (shutdown o)) (hinit : (shutdown o).init (b.state 0))
    (hfair : b.Fair Act.ofAsync Exited) :
    (∃ i, Exited (b.state i)) ↔ Exited (b.state 0) ∨ ∃ k, (b.state 0).1.remaining ≤ trues o k := by
  obtain ⟨-, hstop, h0⟩ := hinit
  have hdrain : Draining o (b.state 0).1.remaining (b.state 0) := ⟨hstop, by rw [h0]; rfl⟩
  have hall := b.invariant hdrain fun x a x' => draining_step
  constructor
  · rintro ⟨i, hi⟩
    -- the first state in which it is out of the loop
    induction i with
    | zero => exact .inl hi
    | succ i ih =>
      by_cases hbefore : Exited (b.state i)
      · exact ih hbefore
      · exact .inr ⟨_, enough_of_exit (hall i) hbefore (b.step i) hi⟩
  · rintro (hexit | ⟨k, hk⟩)
    · exact ⟨0, hexit⟩
    · exact b.reaches (shutdownRank k) hdrain (fun _ _ _ => draining_step)
        (fun _ _ _ h _ hs => (shutdownRank_step hk h hs).1)
        (fun _ _ _ h _ hp hs => (shutdownRank_step hk h hs).2 hp) hfair

end Exit

/-! ## A disk that stays full -/

/-- The logger after one record, the destructor and a batch that failed: asyncRun is at `pc`. -/
def fullDisk (pc : AsyncPc) (memtable : List Entry) (e : Errno) : LogWritter :=
  { start with
    file_writer := { start.file_writer with errno := e }
    writers := Function.update start.writers 0 .idle
    written_log_index := 1
    memtable_size := 1
    memtable := memtable
    pushed := [⟨7, ['a'], 0⟩]
    running := false
    disk_full_try_times := 10
    async := pc }

/-- One turn of asyncRun in which `fwrite` takes nothing, and the step at each of its places. -/
def fullTurn : Fin 4 → LogWritter × Act
  | 0 => (fullDisk .top [⟨7, ['a'], 0⟩] 0, .iterate)
  | 1 => (fullDisk (.batch ⟨[], [⟨7, ['a'], 0⟩], 0, 0⟩) [] 0, .writeEntry (.failed 0) (.failed 0) (.enospc 0))
  | 2 => (fullDisk (.flushing ⟨[], [⟨7, ['a'], 0⟩], 0, 0⟩) [] ENOSPC, .flush (.failed 0) .ok 0)
  | 3 => (fullDisk (.relock ⟨[], [⟨7, ['a'], 0⟩], 0, 0⟩) [] 0, .update .async)

theorem fullTurn_step (i : Fin 4) (k : Nat) :
    (shutdown fun _ => false).step ((fullTurn i).1, k) (fullTurn i).2 =
      some ((fullTurn (i + 1)).1, if i = 1 then k + 1 else k) := by
  match i with
  | 0 => rfl
  | 1 => rfl
  | 2 => rfl
  | 3 => rfl

/-- asyncRun after the destructor, with a disk that stays full. -/
def hang : Behavior (shutdown fun _ => false) where
  state i := ((fullTurn (Fin.ofNat 4 i)).1, (i + 2) / 4)
  act i := (fullTurn (Fin.ofNat 4 i)).2
  step i := by
    have hnext : Fin.ofNat 4 (i + 1) = Fin.ofNat 4 i + 1 := by
      ext
      simp [Fin.ofNat, Fin.val_add]
    have hcalls : (i + 1 + 2) / 4 = if Fin.ofNat 4 i = 1 then (i + 2) / 4 + 1 else (i + 2) / 4 := by
      have hval : Fin.ofNat 4 i = 1 ↔ i % 4 = 1 := by
        rw [Fin.ext_iff]
        rfl
      simp only [hval]
      split_ifs <;> omega
    rw [fullTurn_step, hnext, hcalls]

theorem hang_init : (shutdown fun _ => false).init (hang.state 0) := by
  refine ⟨?_, rfl, rfl⟩
  have hstart : Reach logger start := .init ⟨_, _, _, rfl⟩
  have hexec : logger.exec start [.write 0 false 7 ['a'] .async, .stop, .lock, .iterate,
      .writeEntry (.failed 0) (.failed 0) (.enospc 0), .flush (.failed 0) .ok 0, .update .async] =
      some (hang.state 0).1 := rfl
  exact reach_exec hstart hexec

theorem hang_fair : hang.Fair Act.ofAsync Exited := by
  intro i
  refine ⟨i, Nat.le_refl i, .inl ?_⟩
  have hall : ∀ j : Fin 4, (fullTurn j).2.ofAsync := by
    intro j
    match j with
    | 0 => trivial
    | 1 => trivial
    | 2 => trivial
    | 3 => trivial
  exact hall _

theorem exits_iff_hang : (∃ i, Exited (hang.state i)) ↔
    Exited (hang.state 0) ∨ ∃ k, (hang.state 0).1.remaining ≤ trues (fun _ => false) k :=
  exits_iff hang hang_init hang_fair

/-- The destructor has cleared `running`, and asyncRun never leaves its loop. -/
theorem hang_never_exits : ∃ b : Behavior (shutdown fun _ => false),
    (shutdown fun _ => false).init (b.state 0) ∧ b.Fair Act.ofAsync Exited ∧ ∀ i, ¬ Exited (b.state i) := by
  refine ⟨hang, hang_init, hang_fair, fun i => ?_⟩
  have hall : ∀ j : Fin 4, (fullTurn j).1.async ≠ .exited := by
    intro j
    match j with
    | 0 => simp [fullTurn, fullDisk]
    | 1 => simp [fullTurn, fullDisk]
    | 2 => simp [fullTurn, fullDisk]
    | 3 => simp [fullTurn, fullDisk]
  exact hall _

end BeanRaft.Logger
