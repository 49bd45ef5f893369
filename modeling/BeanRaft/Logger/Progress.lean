import BeanRaft.Logger.Shutdown
import BeanRaft.Logger.Wakeup
import BeanRaft.Logger.Buffers
import BeanRaft.Logger.Order

/-!
# BeanRaft.Logger.Progress — every record is counted as flushed, and every waiting call returns

Infinite behaviours of the logger in which asyncRun is scheduled again and again: it takes a step, or its `wait_for` times
out.  Nothing is asked of the disk.  The indices are numbers here, as the `uint64_t` of the code are while fewer than 2^64
records are pushed (`Counters`).

* `Course`: what an action does to asyncRun on its way to the next call of `FileWritter::write`.  `step_course`: every step
  of the logger does one of these things.
* `toCall`, `toUpdate`: the ranks of the way to the next call, and of the way to the end of a batch.
* `Refused`: the way out that is left: from some time on `write` is called again and again, and always returns false.
* `flushed_or_refused`: a pushed record is counted in `flushed_log_index`, or the disk refuses for ever.
  `returns_or_refused`: the same for the return of a `write` that waits.
-/

namespace BeanRaft.Logger

open Lts

variable {s s' : LogWritter} {a : Act} {t : Tid}

/-- A step of asyncRun, or the time-out of its `wait_for`. -/
def Act.Active (a : Act) : Prop := a.ofAsync ∨ a = .spurious .async

/-- What an action does to asyncRun, with the value of its call of `write`. -/
inductive Course (s s' : LogWritter) : Act → Option Bool → Prop
  | others {a : Act} (ha : ¬ a.Active) (hpc : s'.async = s.async) (hcv : .async ∈ s'.cv → .async ∈ s.cv)
    (htries : s'.disk_full_try_times ≤ s.disk_full_try_times) : Course s s' a none
  | timeout (hcv : .async ∈ s.cv) (hcv' : .async ∉ s'.cv) (hpc : s'.async = s.async)
    (htries : s'.disk_full_try_times = s.disk_full_try_times) : Course s s' (.spurious .async) none
  | lock (hpc : s.async = .waiting) (hpc' : s'.async = .top) (htries : s'.disk_full_try_times = s.disk_full_try_times) :
    Course s s' .lock none
  | idle (hpc : s.async = .top) (hm : s.memtable = []) : Course s s' .iterate none
  | count (hpc : s.async = .top) (hpc' : s'.async = .top) (htries : s'.disk_full_try_times < s.disk_full_try_times) :
    Course s s' .iterate none
  | swap (hpc : s.async = .top) (hm : s.memtable ≠ []) (hpc' : s'.async = .batch ⟨[], s.memtable, 0, 0⟩) :
    Course s s' .iterate none
  | done {rot cr : CreateResult} {fw : FwriteResult} (b : Batch) (hpc : s.async = .batch b) (hr : b.rest = [])
    (hpc' : s'.async = .flushing b) (htries : s'.disk_full_try_times = s.disk_full_try_times) :
    Course s s' (.writeEntry rot cr fw) none
  | refused {rot cr : CreateResult} {fw : FwriteResult} (b : Batch) (hpc : s.async = .batch b)
    (hpc' : s'.async = .flushing b) : Course s s' (.writeEntry rot cr fw) (some false)
  | written {rot cr : CreateResult} {fw : FwriteResult} (b b' : Batch) (e : Entry) (hpc : s.async = .batch b)
    (hr : b.rest = e :: b'.rest) (hpc' : s'.async = .batch b') (hw : b'.written = b.written ++ [e]) :
    Course s s' (.writeEntry rot cr fw) (some true)
  | flush {cr : CreateResult} {fw : FwriteResult} {errno : Errno} (b : Batch) (hpc : s.async = .flushing b)
    (hpc' : s'.async = .relock b) (htries : s'.disk_full_try_times = s.disk_full_try_times) :
    Course s s' (.flush cr fw errno) none
  | update {x : Waiter} (b : Batch) (hpc : s.async = .relock b) (hpc' : s'.async = .top)
    (htries : s'.disk_full_try_times = if b.rest = [] then s.disk_full_try_times else 10) : Course s s' (.update x) none

section Steps

/-- The other threads leave asyncRun where it is, and may wake it or count the tries down. -/
structure Aside (s s' : LogWritter) : Prop where
  async : s'.async = s.async
  cv : .async ∈ s'.cv → .async ∈ s.cv
  tries : s'.disk_full_try_times ≤ s.disk_full_try_times

theorem Aside.rfl : Aside s s := ⟨Eq.refl _, id, Nat.le_refl _⟩

theorem waitLoop_aside (s : LogWritter) (t : Tid) (n : Nat) : Aside s (s.waitLoop t n) := by
  rcases waitLoop_cases s t n with ⟨-, h⟩ | ⟨-, h⟩
  · rw [h]
    refine ⟨Eq.refl _, fun hcv => ?_, Nat.le_refl _⟩
    simpa using hcv
  · rw [h]
    exact ⟨Eq.refl _, id, Nat.le_refl _⟩

theorem write_aside {f : Bool} {m : Nat} {text : Text} {x : Waiter} (h : s.write t f m text x = some s') : Aside s s' := by
  rcases write_cases h with ⟨-, rfl⟩ | ⟨-, rfl⟩ | ⟨-, rfl | rfl | ⟨-, hn⟩⟩
  · exact ⟨Eq.refl _, id, Nat.sub_le _ _⟩
  · obtain ⟨hasync, hcv, htries⟩ :=
      waitLoop_aside ({ (s.setWriter t .idle).push m text with blocked_threads := s.blocked_threads + 1 }).notifyAll t
        (s.written_log_index + 1)
    exact ⟨hasync, fun h => absurd (hcv h) (Finset.notMem_empty _), htries⟩
  · exact ⟨Eq.refl _, id, Nat.le_refl _⟩
  · exact ⟨Eq.refl _, fun h => absurd h (Finset.notMem_empty _), Nat.le_refl _⟩
  · rcases notifyOne_cases hn with ⟨-, rfl⟩ | ⟨-, rfl⟩
    · exact ⟨Eq.refl _, fun h => Finset.mem_of_mem_erase h, Nat.le_refl _⟩
    · exact ⟨Eq.refl _, id, Nat.le_refl _⟩

theorem iterate_course (hpc : s.async = .top) : Course s s.iterate .iterate none := by
  rcases iterate_cases s with ⟨-, hm, -⟩ | ⟨-, -, hpos, h⟩ | ⟨-, hm, -⟩ | ⟨hm, h⟩
  · exact .idle hpc hm
  · rw [h]
    refine .count hpc hpc ?_
    show s.disk_full_try_times - 1 < s.disk_full_try_times
    omega
  · exact .idle hpc hm
  · rw [h]
    exact .swap hpc hm (Eq.refl _)

theorem writeEntry_course {b : Batch} {rot cr : CreateResult} {fw : FwriteResult} (hpc : s.async = .batch b)
    (h : s.writeEntry b rot cr fw = some s') :
    Course s s' (.writeEntry rot cr fw) (s.wrote (.writeEntry rot cr fw)) := by
  have hwrote : s.wrote (.writeEntry rot cr fw) = b.rest.head?.map fun e =>
      ((s.file_writer.rotateIfNeed s.max_file_size rot).write (.record e) cr fw).2 := by
    simp only [LogWritter.wrote, hpc]
  rw [hwrote]
  rcases writeEntry_cases h with ⟨hr, rfl⟩ | ⟨e, rest, hr, -, w, ⟨hres, rfl⟩ | ⟨hres, rfl⟩⟩
  · rw [hr]
    exact .done b hpc hr (Eq.refl _) (Eq.refl _)
  · rw [hr, List.head?_cons, Option.map_some, hres]
    exact .refused b hpc (Eq.refl _)
  · rw [hr, List.head?_cons, Option.map_some, hres]
    exact .written b _ e hpc hr (Eq.refl _) (Eq.refl _)

theorem update_course {b : Batch} {x : Waiter} (hpc : s.async = .relock b) (h : s.update b x = some s') :
    Course s s' (.update x) none := by
  have hend : (s.endBatch b).async = .top ∧
      (s.endBatch b).disk_full_try_times = if b.rest = [] then s.disk_full_try_times else 10 := by
    unfold LogWritter.endBatch LogWritter.splice
    split_ifs <;> exact ⟨Eq.refl _, Eq.refl _⟩
  rcases update_cases h with ⟨-, hn⟩ | ⟨-, rfl⟩ | ⟨-, rfl⟩
  · rcases notifyOne_cases hn with ⟨-, rfl⟩ | ⟨-, rfl⟩
    · exact .update b hpc hend.1 hend.2
    · exact .update b hpc hend.1 hend.2
  · exact .update b hpc hend.1 hend.2
  · exact .update b hpc hend.1 hend.2

/-- A step that is not one of asyncRun leaves it where it is. -/
theorem step_aside (h : s.step a = some s') (ha : ¬ a.Active) : Aside s s' := by
  cases step_did h with
  | writeLog =>
    unfold LogWritter.writeLog
    split
    · exact .rfl
    · exact ⟨Eq.refl _, id, Nat.le_refl _⟩
  | allocate =>
    unfold LogWritter.allocate
    split <;> exact ⟨Eq.refl _, id, Nat.le_refl _⟩
  | miss =>
    unfold LogWritter.miss
    split <;> exact ⟨Eq.refl _, id, Nat.le_refl _⟩
  | retry =>
    unfold LogWritter.retry
    split <;> exact ⟨Eq.refl _, id, Nat.le_refl _⟩
  | retryMiss => exact ⟨Eq.refl _, id, Nat.le_refl _⟩
  | format _ _ h => exact write_aside h
  | write _ _ h => exact write_aside h
  | wake => exact waitLoop_aside s _ _
  | spurious => exact ⟨Eq.refl _, fun h => Finset.mem_of_mem_erase h, Nat.le_refl _⟩
  | setLogLevel => exact ⟨Eq.refl _, id, Nat.le_refl _⟩
  | setSyncLoglevel =>
    split
    · exact .rfl
    · exact ⟨Eq.refl _, id, Nat.le_refl _⟩
  | setFileRotateSize => exact ⟨Eq.refl _, id, Nat.le_refl _⟩
  | stop => exact ⟨Eq.refl _, fun h => absurd h (Finset.notMem_empty _), Nat.le_refl _⟩
  | lock | iterate | writeEntry | flush | update => exact absurd (.inl trivial) ha

/-- The other threads do not call `FileWritter::write`. -/
theorem wrote_of_not_active (ha : ¬ a.Active) : s.wrote a = none := by
  unfold LogWritter.wrote
  split
  · exact absurd (.inl trivial) ha
  · rfl

/-- **Every step of the logger does to asyncRun one of the things of `Course`.** -/
theorem step_course (h : s.step a = some s') : Course s s' a (s.wrote a) := by
  by_cases ha : a.Active
  · cases step_did h with
    | @spurious x hcv =>
      cases x with
      | async => exact .timeout hcv (Finset.notMem_erase _ _) (Eq.refl _) (Eq.refl _)
      | writer t => simp [Act.Active, Act.ofAsync] at ha
    | lock hpc => exact .lock hpc (Eq.refl _) (Eq.refl _)
    | iterate hpc => exact iterate_course hpc
    | writeEntry hpc h => exact writeEntry_course hpc h
    | flush hpc =>
      have hflush : ∀ b cr fw errno, (s.flush b cr fw errno).async = .relock b ∧
          (s.flush b cr fw errno).disk_full_try_times = s.disk_full_try_times := by
        intro b cr fw errno
        unfold LogWritter.flush LogWritter.writeReport
        split <;> exact ⟨Eq.refl _, Eq.refl _⟩
      exact .flush _ hpc (hflush _ _ _ _).1 (hflush _ _ _ _).2
    | update hpc h => exact update_course hpc h
    | writeLog | allocate | miss | retry | retryMiss | format | write | wake | setLogLevel | setSyncLoglevel
    | setFileRotateSize | stop => simp [Act.Active, Act.ofAsync] at ha
  · obtain ⟨hpc, hcv, htries⟩ := step_aside h ha
    rw [wrote_of_not_active ha]
    exact .others ha hpc hcv htries

end Steps

/-! ## The ranks -/

/-- The tries that are left after the running batch. -/
def LogWritter.triesAfter (s : LogWritter) (b : Batch) : Nat := if b.rest = [] then s.disk_full_try_times else 10

/-- The steps of asyncRun to its next call of `write`, while there is a record in `memtable`. -/
def LogWritter.toCall (s : LogWritter) : Nat :=
  match s.async with
  | .batch b => if b.rest = [] then s.triesAfter b + 4 else 0
  | .flushing b => s.triesAfter b + 3
  | .relock b => s.triesAfter b + 2
  | .waiting => s.disk_full_try_times + if .async ∈ s.cv then 3 else 2
  | .top => s.disk_full_try_times + 1
  | .exited => 0

/-- The steps of asyncRun to the end of its batch. -/
def LogWritter.toUpdate (s : LogWritter) : Nat :=
  match s.async with
  | .batch b => b.rest.length + 3
  | .flushing _ => 2
  | .relock _ => 1
  | _ => 0

section Ranks

variable {r : Option Bool}

/-- The other threads do not raise the rank. -/
theorem toCall_others (hpc : s'.async = s.async) (hcv : .async ∈ s'.cv → .async ∈ s.cv)
    (htries : s'.disk_full_try_times ≤ s.disk_full_try_times) : s'.toCall ≤ s.toCall := by
  unfold LogWritter.toCall LogWritter.triesAfter
  rw [hpc]
  cases s.async with
  | waiting =>
    by_cases hin : .async ∈ s'.cv
    · simp only [hin, hcv hin, if_true]
      omega
    · simp only [hin, if_false]
      split_ifs <;> omega
  | top =>
    simp only
    omega
  | batch b =>
    simp only
    split_ifs <;> omega
  | flushing b =>
    simp only
    split_ifs <;> omega
  | relock b =>
    simp only
    split_ifs <;> omega
  | exited => exact Nat.le_refl _

/-- Without a call, a step of asyncRun brings it nearer to the next one. -/
theorem Course.toCall (h : Course s s' a r) (hcv : .async ∈ s.cv → s.async = .waiting)
    (hm : s.async = .top → s.memtable ≠ []) (hr : r = none) :
    s'.toCall ≤ s.toCall ∧ (a.Active → s'.toCall < s.toCall) := by
  have both : s'.toCall < s.toCall → s'.toCall ≤ s.toCall ∧ (a.Active → s'.toCall < s.toCall) :=
    fun hlt => ⟨Nat.le_of_lt hlt, fun _ => hlt⟩
  cases h with
  | others ha hpc hcv' htries => exact ⟨toCall_others hpc hcv' htries, fun hact => absurd hact ha⟩
  | timeout hin hout hpc htries =>
    apply both
    simp [LogWritter.toCall, hpc, hcv hin, hin, hout, htries]
  | lock hpc hpc' htries =>
    apply both
    simp only [LogWritter.toCall, hpc, hpc', htries]
    split_ifs <;> omega
  | idle hpc hnil => exact absurd hnil (hm hpc)
  | count hpc hpc' htries =>
    apply both
    simp only [LogWritter.toCall, hpc, hpc']
    omega
  | swap hpc hne hpc' =>
    apply both
    simp [LogWritter.toCall, hpc, hpc', hne]
  | done b hpc hrest hpc' htries =>
    apply both
    simp [LogWritter.toCall, LogWritter.triesAfter, hpc, hpc', hrest, htries]
  | flush b hpc hpc' htries =>
    apply both
    simp [LogWritter.toCall, LogWritter.triesAfter, hpc, hpc', htries]
  | update b hpc hpc' htries =>
    apply both
    simp [LogWritter.toCall, LogWritter.triesAfter, hpc, hpc', htries]
  | refused | written => cases hr

/-- A batch comes to its end. -/
theorem Course.toUpdate (h : Course s s' a r) (hcv : .async ∈ s.cv → s.async = .waiting) (hpos : 0 < s.toUpdate) :
    s'.toUpdate ≤ s.toUpdate ∧ (a.Active → s'.toUpdate < s.toUpdate) := by
  have both : s'.toUpdate < s.toUpdate → s'.toUpdate ≤ s.toUpdate ∧ (a.Active → s'.toUpdate < s.toUpdate) :=
    fun hlt => ⟨Nat.le_of_lt hlt, fun _ => hlt⟩
  cases h with
  | others ha hpc =>
    refine ⟨?_, fun hact => absurd hact ha⟩
    unfold LogWritter.toUpdate
    rw [hpc]
  | timeout hin => simp [LogWritter.toUpdate, hcv hin] at hpos
  | lock hpc => simp [LogWritter.toUpdate, hpc] at hpos
  | idle hpc => simp [LogWritter.toUpdate, hpc] at hpos
  | count hpc => simp [LogWritter.toUpdate, hpc] at hpos
  | swap hpc => simp [LogWritter.toUpdate, hpc] at hpos
  | done b hpc _ hpc' =>
    apply both
    simp [LogWritter.toUpdate, hpc, hpc']
  | refused b hpc hpc' =>
    apply both
    simp only [LogWritter.toUpdate, hpc, hpc']
    omega
  | written b b' e hpc hrest hpc' =>
    apply both
    simp [LogWritter.toUpdate, hpc, hpc', hrest]
  | flush b hpc hpc' =>
    apply both
    simp [LogWritter.toUpdate, hpc, hpc']
  | update b hpc hpc' =>
    apply both
    simp [LogWritter.toUpdate, hpc, hpc']

end Ranks

/-! ## What a step keeps -/

section Keeps

variable {p p' : Pipe}

theorem PipeStep.flushed_le (h : PipeStep p a p') : p.flushed_log_index ≤ p'.flushed_log_index := by
  cases h with
  | update b => exact Nat.le_add_right _ _
  | _ => exact Nat.le_refl _

theorem PipeStep.pushed_le (h : PipeStep p a p') : p.pushed.length ≤ p'.pushed.length := by
  cases h with
  | push e => simp
  | _ => exact Nat.le_refl _

/-- A record stays accepted. -/
theorem PipeStep.accepted_le (h : PipeStep p a p') (hi : Accounted p) : p.accepted ≤ p'.accepted := by
  have hc := hi.counted
  cases h with
  | lock h => simp [Pipe.accepted, h, AsyncPc.written]
  | park h => simp [Pipe.accepted, h, AsyncPc.written]
  | exit h => simp [Pipe.accepted, h, AsyncPc.written]
  | swap h => simp [Pipe.accepted, h, AsyncPc.written]
  | done b h => simp [Pipe.accepted, h, AsyncPc.written]
  | refused b e rest h => simp [Pipe.accepted, h, AsyncPc.written]
  | written b e rest h => simp [Pipe.accepted, h, AsyncPc.written]
  | flush b _ h => simp [Pipe.accepted, h, AsyncPc.written]
  | update b h =>
    rw [h] at hc
    simp [Pipe.accepted, h, AsyncPc.written, hc.1]
  | stutter | push | resize => exact Nat.le_refl _

/-- asyncRun exits with everything flushed, and flushes nothing more. -/
theorem PipeStep.exit_flushed {k : Nat} (h : PipeStep p a p') (hi : Accounted p) (hk : k < p.pushed.length)
    (hlive : p.async = .exited → k < p.flushed_log_index) (hexit : p'.async = .exited) : k < p'.flushed_log_index := by
  cases h with
  | exit h hm =>
    have hq := hi.queue
    rw [h, hm] at hq
    have hlen := List.drop_eq_nil_iff.mp hq
    show k < p.flushed_log_index
    omega
  | stutter | push | resize => exact hlive hexit
  | lock | park | swap | done | refused | written | flush | update => cases hexit

/-- A record that is accepted and not flushed is in a batch. -/
theorem toUpdate_pos (h : s.flushed_log_index < s.pipe.accepted) : 0 < s.toUpdate := by
  unfold Pipe.accepted at h
  unfold LogWritter.toUpdate
  change s.flushed_log_index < s.flushed_log_index + s.async.written.length at h
  cases hpc : s.async with
  | batch b => simp
  | flushing b => simp
  | relock b => simp
  | waiting => simp [hpc, AsyncPc.written] at h
  | top => simp [hpc, AsyncPc.written] at h
  | exited => simp [hpc, AsyncPc.written] at h

/-- A call of `write` that returns true accepts a record. -/
theorem accepted_lt (hr : Reach logger s) (h : s.step a = some s') (hw : s.wrote a = some true) :
    s.pipe.accepted < s'.pipe.accepted := by
  have hflushed : s.flushed_log_index ≤ s'.flushed_log_index := (step_pipe (misslog_len_eq_zero hr) h).flushed_le
  have hcourse := step_course h
  rw [hw] at hcourse
  cases hcourse with
  | written b b' e hpc _ hpc' hwritten =>
    show s.flushed_log_index + s.async.written.length < s'.flushed_log_index + s'.async.written.length
    rw [hpc, hpc']
    show s.flushed_log_index + b.written.length < s'.flushed_log_index + b'.written.length
    rw [hwritten, List.length_append, List.length_singleton]
    omega

theorem waiting_of_parked (hr : Reach logger s) (h : .async ∈ s.cv) : s.async = .waiting := by
  have hasleep := (reach_awake hr).async h
  simpa [LogWritter.crowd] using hasleep

/-- A woken thread that is in the wait loop of `write`. -/
def Woken (t : Tid) (s : LogWritter) : Prop := (∃ need, s.writers t = .waiting need) ∧ .writer t ∉ s.cv

/-- A thread leaves the wait loop by its own turn only. -/
theorem waiting_step {need : Nat} (hw : s.writers t = .waiting need) (h : s.step a = some s') :
    (a ≠ .wake t ∧ s'.writers t = .waiting need) ∨ a = .wake t ∧ s' = s.waitLoop t need := by
  by_cases hactor : a.actor = some t
  · cases step_did h with
    | wake _ hpc =>
      obtain rfl := Option.some.inj hactor
      rw [hw] at hpc
      cases hpc
      exact .inr ⟨Eq.refl _, Eq.refl _⟩
    | writeLog _ hpc | allocate hpc | miss _ hpc | retry hpc | retryMiss _ hpc | format _ hpc | write _ hpc =>
      obtain rfl := Option.some.inj hactor
      rw [hw] at hpc
      cases hpc
    | spurious | lock | iterate | writeEntry | flush | update | setLogLevel | setSyncLoglevel | setFileRotateSize | stop =>
      cases hactor
  · left
    rw [step_writers_of_ne hactor h]
    refine ⟨?_, hw⟩
    rintro rfl
    exact hactor rfl

theorem waitLoop_waiting {need : Nat} (hlt : s.flushed_log_index < need) :
    (s.waitLoop t need).writers t = .waiting need := by
  rcases waitLoop_cases s t need with ⟨-, h⟩ | ⟨hle, -⟩
  · rw [h]
    exact Function.update_self ..
  · omega

theorem waitLoop_idle {need : Nat} (hle : need ≤ s.flushed_log_index) : (s.waitLoop t need).writers t = .idle := by
  rcases waitLoop_cases s t need with ⟨hlt, -⟩ | ⟨-, h⟩
  · omega
  · rw [h]
    exact Function.update_self ..

end Keeps

/-! ## The property -/

/-- From some time on `FileWritter::write` is called again and again for a record, and always returns false. -/
def Refused (b : Behavior logger) : Prop :=
  (∀ i, ∃ j, i ≤ j ∧ (b.state j).wrote (b.act j) = some false) ∧
    ∃ i, ∀ j, i ≤ j → (b.state j).wrote (b.act j) ≠ some true

section Behaviors

variable {b : Behavior logger} {i k : Nat}

theorem reach_state (h0 : Reach logger (b.state 0)) (i : Nat) : Reach logger (b.state i) :=
  Behavior.invariant (I := Reach logger) h0 (fun _ _ _ hr hs => hr.step hs) i

theorem pipe_state (h0 : Reach logger (b.state 0)) (i : Nat) :
    PipeStep (b.state i).pipe (b.act i) (b.state (i + 1)).pipe :=
  step_pipe (misslog_len_eq_zero (reach_state h0 i)) (b.step i)

/-- A record that was pushed before the exit is flushed before the exit. -/
theorem pending_state (h0 : Reach logger (b.state 0)) (hlive : (b.state i).async ≠ .exited)
    (hk : k < (b.state i).pushed.length) {j : Nat} (hij : i ≤ j) :
    k < (b.state j).pushed.length ∧ ((b.state j).async = .exited → k < (b.state j).flushed_log_index) := by
  induction hij with
  | refl => exact ⟨hk, fun hexit => absurd hexit hlive⟩
  | @step j _ ih =>
    obtain ⟨hpushed, hexited⟩ := ih
    have hstep := pipe_state h0 j
    have hle : (b.state j).pushed.length ≤ (b.state (j + 1)).pushed.length := hstep.pushed_le
    exact ⟨Nat.lt_of_lt_of_le hpushed hle, hstep.exit_flushed (reach_accounted (reach_state h0 j)) hpushed hexited⟩

theorem flushed_mono (h0 : Reach logger (b.state 0)) : Monotone fun j => (b.state j).flushed_log_index :=
  monotone_nat_of_le_succ fun j => (pipe_state h0 j).flushed_le

theorem accepted_mono (h0 : Reach logger (b.state 0)) : Monotone fun j => (b.state j).pipe.accepted :=
  monotone_nat_of_le_succ fun j => (pipe_state h0 j).accepted_le (reach_accounted (reach_state h0 j))

/-- Accepted records are flushed. -/
theorem flushed_of_accepted (h0 : Reach logger (b.state 0))
    (hfair : ∀ j, i ≤ j → ∃ l, j ≤ l ∧ (Act.Active (b.act l) ∨ k < (b.state l).flushed_log_index))
    (hk : k < (b.state i).pipe.accepted) : ∃ j, i ≤ j ∧ k < (b.state j).flushed_log_index := by
  have hrank : ∀ j, i ≤ j → ¬ k < (b.state j).flushed_log_index →
      (b.state (j + 1)).toUpdate ≤ (b.state j).toUpdate ∧
        (Act.Active (b.act j) → (b.state (j + 1)).toUpdate < (b.state j).toUpdate) := by
    intro j hij hnot
    have hacc : (b.state i).pipe.accepted ≤ (b.state j).pipe.accepted := accepted_mono h0 hij
    have hpos := toUpdate_pos (s := b.state j) (by omega)
    exact (step_course (b.step j)).toUpdate (waiting_of_parked (reach_state h0 j)) hpos
  exact b.leadsTo LogWritter.toUpdate (fun j hij hnot => (hrank j hij hnot).1) (fun j hij hnot => (hrank j hij hnot).2) hfair

/-- While a record is not flushed, `write` is called again. -/
theorem called_of_pending (h0 : Reach logger (b.state 0)) (hlive : (b.state i).async ≠ .exited)
    (hfair : b.Fair Act.Active fun s => s.async = .exited) (hk : k < (b.state i).pushed.length) :
    ∃ j, i ≤ j ∧ (k < (b.state j).flushed_log_index ∨ (b.state j).wrote (b.act j) ≠ none) := by
  have hrank : ∀ j, i ≤ j → ¬ (k < (b.state j).flushed_log_index ∨ (b.state j).wrote (b.act j) ≠ none) →
      (b.state (j + 1)).toCall ≤ (b.state j).toCall ∧
        (Act.Active (b.act j) → (b.state (j + 1)).toCall < (b.state j).toCall) := by
    intro j hij hnot
    obtain ⟨hnotflushed, hnone⟩ := not_or.mp hnot
    have hreach := reach_state h0 j
    obtain ⟨hpushed, -⟩ := pending_state h0 hlive hk hij
    refine (step_course (b.step j)).toCall (waiting_of_parked hreach) ?_ (not_ne_iff.mp hnone)
    -- the record is in no batch, so it is in `memtable`
    intro htop hnil
    have hq : (b.state j).pushed.drop (b.state j).flushed_log_index = (b.state j).async.table ++ (b.state j).memtable :=
      (reach_accounted hreach).queue
    rw [htop, hnil] at hq
    have hlen := List.drop_eq_nil_iff.mp hq
    omega
  refine b.leadsTo LogWritter.toCall (fun j hij hnot => (hrank j hij hnot).1) (fun j hij hnot => (hrank j hij hnot).2) ?_
  intro j hij
  obtain ⟨l, hjl, hl⟩ := hfair j
  refine ⟨l, hjl, ?_⟩
  rcases hl with hact | hexit
  · exact .inl hact
  · exact .inr (.inl ((pending_state h0 hlive hk (Nat.le_trans hij hjl)).2 hexit))

/-- A record that is never flushed is one that the disk refuses. -/
theorem refused_of_unflushed (h0 : Reach logger (b.state 0)) (hlive : (b.state i).async ≠ .exited)
    (hfair : b.Fair Act.Active fun s => s.async = .exited) (hk : k < (b.state i).pushed.length)
    (hno : ∀ j, i ≤ j → ¬ k < (b.state j).flushed_log_index) : Refused b := by
  have hrunning : ∀ j, i ≤ j → (b.state j).async ≠ .exited :=
    fun j hij hexit => hno j hij ((pending_state h0 hlive hk hij).2 hexit)
  have hend : ∃ j, ∀ l, j ≤ l → (b.state l).wrote (b.act l) ≠ some true := by
    by_contra hagain
    have hagain' : ∀ j, ∃ l, j ≤ l ∧ (b.state l).wrote (b.act l) = some true := by
      intro j
      by_contra hj
      exact hagain ⟨j, fun l hjl hl => hj ⟨l, hjl, hl⟩⟩
    obtain ⟨n, hn⟩ := b.unbounded (fun s => s.pipe.accepted)
      (fun j => (pipe_state h0 j).accepted_le (reach_accounted (reach_state h0 j)))
      (fun j hw => accepted_lt (reach_state h0 j) (b.step j) hw) hagain' (k + 1)
    have hmax : (b.state n).pipe.accepted ≤ (b.state (max i n)).pipe.accepted :=
      accepted_mono h0 (Nat.le_max_right _ _)
    obtain ⟨j, hj, hflushed⟩ := flushed_of_accepted (i := max i n) (k := k) h0 (fun j hj => by
      obtain ⟨l, hjl, hl⟩ := hfair j
      exact ⟨l, hjl, .inl (hl.resolve_right (hrunning l (by omega)))⟩) (by omega)
    exact hno j (by omega) hflushed
  refine ⟨fun j => ?_, hend⟩
  obtain ⟨n, hn⟩ := hend
  -- a call after `i`, `j` and the last success
  have hij : i ≤ max i (max j n) := Nat.le_max_left _ _
  obtain ⟨l, hl, hcall⟩ := called_of_pending h0 (hrunning _ hij) hfair (pending_state h0 hlive hk hij).1
  have hcalled := hcall.resolve_left (hno l (by omega))
  refine ⟨l, by omega, ?_⟩
  cases hw : (b.state l).wrote (b.act l) with
  | none => exact absurd hw hcalled
  | some r =>
    cases r with
    | false => rfl
    | true => exact absurd hw (hn l (by omega))

/-- **Every record is counted as flushed, or the disk refuses for ever**: in every run in which asyncRun is scheduled again
and again, for every record that is pushed before asyncRun exits. -/
theorem flushed_or_refused (b : Behavior logger) (h0 : Reach logger (b.state 0))
    (hfair : b.Fair Act.Active fun s => s.async = .exited) {i k : Nat} (hlive : (b.state i).async ≠ .exited)
    (hk : k < (b.state i).pushed.length) : (∃ j, i ≤ j ∧ k < (b.state j).flushed_log_index) ∨ Refused b := by
  by_cases hflushed : ∃ j, i ≤ j ∧ k < (b.state j).flushed_log_index
  · exact .inl hflushed
  · exact .inr (refused_of_unflushed h0 hlive hfair hk fun j hij hj => hflushed ⟨j, hij, hj⟩)

/-- **Every `write` that waits returns, or the disk refuses for ever**: in every run in which, besides, a thread that was
woken gets `mu` again. -/
theorem returns_or_refused (b : Behavior logger) (h0 : Reach logger (b.state 0))
    (hfair : b.Fair Act.Active fun s => s.async = .exited) {t : Tid}
    (hlock : ∀ i, ∃ j, i ≤ j ∧ (b.act j = .wake t ∨ ¬ Woken t (b.state j))) {i need : Nat}
    (hlive : (b.state i).async ≠ .exited) (hwait : (b.state i).writers t = .waiting need) :
    (∃ j, i ≤ j ∧ (b.state j).writers t = .idle) ∨ Refused b := by
  by_cases hflushed : ∃ j, i ≤ j ∧ need ≤ (b.state j).flushed_log_index
  · left
    by_contra hno
    have hstays : ∀ j, i ≤ j → (b.state j).writers t = .waiting need := by
      intro j hij
      induction hij with
      | refl => exact hwait
      | @step j hij ih =>
        rcases waiting_step ih (b.step j) with ⟨-, hsame⟩ | ⟨-, hturn⟩
        · exact hsame
        · rw [hturn]
          apply waitLoop_waiting
          by_contra hle
          refine hno ⟨j + 1, Nat.le_succ_of_le hij, ?_⟩
          rw [hturn]
          exact waitLoop_idle (Nat.le_of_not_lt hle)
    obtain ⟨n, hin, hn⟩ := hflushed
    obtain ⟨l, hnl, hl⟩ := hlock n
    have hle : need ≤ (b.state l).flushed_log_index := Nat.le_trans hn (flushed_mono h0 hnl)
    have hwoken : Woken t (b.state l) := by
      refine ⟨⟨need, hstays l (Nat.le_trans hin hnl)⟩, fun hparked => ?_⟩
      obtain ⟨need', hneed, hlt⟩ := (reach_awake (reach_state h0 l)).parked t hparked
      have hpc := need_eq_some hneed
      rw [hstays l (Nat.le_trans hin hnl)] at hpc
      cases hpc
      exact absurd hlt (Nat.not_lt.mpr hle)
    have hwake := hl.resolve_right (not_not.mpr hwoken)
    rcases waiting_step (hstays l (Nat.le_trans hin hnl)) (b.step l) with ⟨hother, -⟩ | ⟨-, hturn⟩
    · exact hother hwake
    · refine hno ⟨l + 1, by omega, ?_⟩
      rw [hturn]
      exact waitLoop_idle hle
  · right
    have hle : need ≤ (b.state i).written_log_index := by
      refine (reach_awake (reach_state h0 i)).le t need ?_
      show ((b.state i).writers t).need = some need
      rw [hwait]
      rfl
    have hwritten : (b.state i).written_log_index = (b.state i).pushed.length :=
      (reach_accounted (reach_state h0 i)).written
    have hpos : 0 < need := by
      rcases Nat.eq_zero_or_pos need with hzero | hpos
      · exact absurd ⟨i, Nat.le_refl _, by omega⟩ hflushed
      · exact hpos
    exact refused_of_unflushed (k := need - 1) h0 hlive hfair (by omega) fun j hij hj => hflushed ⟨j, hij, by omega⟩

end Behaviors

/-! ## A call that returns -/

/-- A forced `write`, and the batch with its record. -/
def forcedRun : List Act :=
  [.write 0 true 7 ['a'] .async, .lock, .iterate, .writeEntry (.created 100 0) (.created 100 0) .ok,
    .writeEntry (.created 100 0) (.created 100 0) .ok, .flush (.created 100 0) .ok 0, .update (.writer 0)]

/-- The logger after it: the writer is woken. -/
def forcedState : LogWritter := (logger.exec start forcedRun).getD start

/-- The call has returned, and asyncRun is at `pc`. -/
def returnedState (pc : AsyncPc) (cv : Finset Waiter) : LogWritter :=
  { forcedState with
    async := pc, cv := cv, writers := Function.update forcedState.writers 0 .idle, blocked_threads := 0 }

/-- asyncRun waits, times out and finds nothing to do, again and again. -/
def idleTurn : Nat → LogWritter × Act
  | 0 => (returnedState .waiting {.async}, .spurious .async)
  | 1 => (returnedState .waiting ∅, .lock)
  | _ => (returnedState .top ∅, .iterate)

theorem idleTurn_step (i : Nat) (hi : i < 3) :
    logger.step (idleTurn i).1 (idleTurn i).2 = some (idleTurn ((i + 1) % 3)).1 := by
  match i with
  | 0 => rfl
  | 1 => rfl
  | 2 => rfl

/-- asyncRun parks, the writer takes `mu` and returns, and nothing is logged any more. -/
def forcedForever : Behavior logger :=
  ((Behavior.cycle 3 (by decide) (fun i => (idleTurn i).1) (fun i => (idleTurn i).2) idleTurn_step).cons
    { forcedState with async := .waiting, cv := {.async} } (.wake 0) rfl).cons forcedState .iterate rfl

theorem forcedForever_reach : Reach logger (forcedForever.state 0) := by
  have hstart : Reach logger start := .init ⟨_, _, _, rfl⟩
  have hexec : logger.exec start forcedRun = some forcedState := rfl
  exact reach_exec hstart hexec

theorem forcedForever_fair : forcedForever.Fair Act.Active fun s => s.async = .exited :=
  Behavior.fair_cons (Behavior.fair_cons (Behavior.fair_cycle (i := 1) (by decide) (.inl trivial)))

theorem forcedForever_woken (i : Nat) : ∃ j, i ≤ j ∧ (forcedForever.act j = .wake 0 ∨ ¬ Woken 0 (forcedForever.state j)) := by
  refine ⟨i + 2, Nat.le_add_right i 2, .inr ?_⟩
  have hidle : ∀ n, (idleTurn n).1.writers 0 = .idle := by
    intro n
    match n with
    | 0 => rfl
    | 1 => rfl
    | n + 2 => rfl
  rintro ⟨⟨need, hneed⟩, -⟩
  rw [show (forcedForever.state (i + 2)).writers 0 = .idle from hidle _] at hneed
  cases hneed

theorem flushed_or_refused_forced :
    (∃ j, 0 ≤ j ∧ 0 < (forcedForever.state j).flushed_log_index) ∨ Refused forcedForever :=
  flushed_or_refused forcedForever forcedForever_reach forcedForever_fair (by decide) (by decide)

theorem returns_or_refused_forced :
    (∃ j, 0 ≤ j ∧ (forcedForever.state j).writers 0 = .idle) ∨ Refused forcedForever := by
  have hwait : (forcedForever.state 0).writers 0 = .waiting 1 := rfl
  exact returns_or_refused forcedForever forcedForever_reach forcedForever_fair forcedForever_woken (by decide) hwait

end BeanRaft.Logger
