import BeanRaft.Logger.MissReport

/-!
# BeanRaft.Logger.Pipe — the way of an entry from `write` to the log files

* `Pipe`: the part of the logger an entry passes through, without the threads that wait for it: `memtable`, the
  table of the running batch, the two indices and the file.
* `PipeStep`: what one action can do to it.  `step_pipe`: every step of the logger does one of these things.
* `Accounted`: the indices, the sizes and the two queues agree with the history of the pushes; it holds in every
  reachable state (`reach_accounted`).
-/

namespace BeanRaft.Logger

open Lts

/-- The table of the running batch. -/
def AsyncPc.table : AsyncPc → List Entry
  | batch b | flushing b | relock b => b.written ++ b.rest
  | _ => []

/-- The entries of the running batch that are written. -/
def AsyncPc.written : AsyncPc → List Entry
  | batch b | flushing b | relock b => b.written
  | _ => []

/-- The entries of the running batch that are not written. -/
def AsyncPc.rest : AsyncPc → List Entry
  | batch b | flushing b | relock b => b.rest
  | _ => []

theorem AsyncPc.table_eq (pc : AsyncPc) : pc.table = pc.written ++ pc.rest := by
  cases pc <;> rfl

/-- The two counters of a batch count what it has written. -/
def Batch.Counted (b : Batch) : Prop :=
  b.current_flushed_logs = b.written.length ∧ b.current_written_size = (b.written.map Entry.message_len).sum

def AsyncPc.Counted : AsyncPc → Prop
  | batch b | flushing b | relock b => b.Counted
  | _ => True

structure Pipe where
  pushed : List Entry
  memtable : List Entry
  written_log_index : Nat
  flushed_log_index : Nat
  memtable_size : Nat
  async : AsyncPc
  file_writer : FileWritter
  max_file_size : Nat

def LogWritter.pipe (s : LogWritter) : Pipe :=
  ⟨s.pushed, s.memtable, s.written_log_index, s.flushed_log_index, s.memtable_size, s.async, s.file_writer,
    s.max_file_size⟩

/-- The call of `FileWritter::write` in the turn of the batch loop that handles `e`. -/
def Pipe.writeCall (p : Pipe) (e : Entry) (rot cr : CreateResult) (fw : FwriteResult) : FileWritter × Bool :=
  (p.file_writer.rotateIfNeed p.max_file_size rot).write (.record e) cr fw

/-- What an action can do to the pipe. -/
inductive PipeStep (p : Pipe) : Act → Pipe → Prop
  | stutter {a : Act} : PipeStep p a p
  | push {a : Act} (e : Entry) (h : e.seq = p.pushed.length) :
    PipeStep p a
      { p with
        memtable := p.memtable ++ [e]
        written_log_index := p.written_log_index + 1
        memtable_size := p.memtable_size + e.message_len
        pushed := p.pushed ++ [e] }
  | resize {a : Act} (n : Nat) : PipeStep p a { p with max_file_size := n }
  | lock (h : p.async = .waiting) : PipeStep p .lock { p with async := .top }
  | park (h : p.async = .top) (hm : p.memtable = []) : PipeStep p .iterate { p with async := .waiting }
  | exit (h : p.async = .top) (hm : p.memtable = []) : PipeStep p .iterate { p with async := .exited }
  | swap (h : p.async = .top) :
    PipeStep p .iterate { p with async := .batch ⟨[], p.memtable, 0, 0⟩, memtable := [] }
  | done (b : Batch) {rot cr : CreateResult} {fw : FwriteResult} (h : p.async = .batch b) (hr : b.rest = []) :
    PipeStep p (.writeEntry rot cr fw) { p with async := .flushing b }
  | refused (b : Batch) (e : Entry) (rest : List Entry) {rot cr : CreateResult} {fw : FwriteResult}
    (h : p.async = .batch b) (hr : b.rest = e :: rest) (hfit : fw.Fits (.record e))
    (hw : (p.writeCall e rot cr fw).2 = false) :
    PipeStep p (.writeEntry rot cr fw)
      { p with file_writer := (p.writeCall e rot cr fw).1, async := .flushing b }
  | written (b : Batch) (e : Entry) (rest : List Entry) {rot cr : CreateResult} {fw : FwriteResult}
    (h : p.async = .batch b) (hr : b.rest = e :: rest) (hw : (p.writeCall e rot cr fw).2 = true) :
    PipeStep p (.writeEntry rot cr fw)
      { p with
        file_writer := (p.writeCall e rot cr fw).1
        async := .batch ⟨b.written ++ [e], rest, b.current_flushed_logs + 1,
          b.current_written_size + e.message_len⟩ }
  | flush (b : Batch) {cr : CreateResult} {fw : FwriteResult} (errno : Errno) (h : p.async = .flushing b) :
    PipeStep p (.flush cr fw errno) { p with file_writer := p.file_writer.flush errno, async := .relock b }
  | update (b : Batch) {x : Waiter} (h : p.async = .relock b) :
    PipeStep p (.update x)
      { p with
        memtable := b.rest ++ p.memtable
        memtable_size := p.memtable_size - b.current_written_size
        flushed_log_index := p.flushed_log_index + b.current_flushed_logs
        async := .top }

/-! ## The pipe of each piece of the logger -/

section Pieces

variable {s s' : LogWritter}

theorem notifyOne_pipe {x : Waiter} (h : s.notifyOne x = some s') : s'.pipe = s.pipe := by
  rcases notifyOne_cases h with ⟨-, rfl⟩ | ⟨-, rfl⟩ <;> rfl

theorem writeLog_pipe (t : Tid) (level : Int) : (s.writeLog t level).pipe = s.pipe := by
  unfold LogWritter.writeLog
  split <;> rfl

theorem allocate_pipe (t : Tid) (level : Int) (f : Bool) : (s.allocate t level f).pipe = s.pipe := by
  unfold LogWritter.allocate
  split <;> rfl

theorem miss_pipe (t : Tid) (level : Int) (f : Bool) : (s.miss t level f).pipe = s.pipe := by
  unfold LogWritter.miss
  split <;> rfl

theorem retry_pipe (t : Tid) (f : Bool) : (s.retry t f).pipe = s.pipe := by
  unfold LogWritter.retry
  split <;> rfl

theorem waitLoop_pipe (t : Tid) (n : Nat) : (s.waitLoop t n).pipe = s.pipe := by
  rcases waitLoop_cases s t n with ⟨-, h⟩ | ⟨-, h⟩ <;> rw [h] <;> rfl

theorem prepareReport_pipe : s.prepareReport.pipe = s.pipe := by
  unfold LogWritter.prepareReport
  split <;> rfl

theorem write_pipe {t : Tid} {f : Bool} {m : Nat} {text : Text} {x : Waiter} (h : s.write t f m text x = some s') :
    s'.pipe = (s.push m text).pipe := by
  rcases write_cases h with ⟨-, rfl⟩ | ⟨-, rfl⟩ | ⟨-, rfl | rfl | ⟨-, hn⟩⟩
  · rfl
  · exact waitLoop_pipe t _
  · rfl
  · rfl
  · have hp := notifyOne_pipe hn
    exact hp

theorem write_pipeStep {a : Act} {t : Tid} {f : Bool} {m : Nat} {text : Text} {x : Waiter}
    (h : s.write t f m text x = some s') : PipeStep s.pipe a s'.pipe := by
  rw [write_pipe h]
  exact .push ⟨m, text, s.pushed.length⟩ rfl

theorem iterate_pipeStep (hpc : s.async = .top) : PipeStep s.pipe .iterate s.iterate.pipe := by
  rcases iterate_cases s with ⟨-, hm, h⟩ | ⟨-, -, -, h⟩ | ⟨-, hm, h⟩ | ⟨-, h⟩ <;> rw [h]
  · exact .park hpc hm
  · exact .stutter
  · exact .exit hpc hm
  · have hp : ({ s.prepareReport with async := .batch ⟨[], s.memtable, 0, 0⟩, memtable := [] } : LogWritter).pipe =
        { s.prepareReport.pipe with async := .batch ⟨[], s.memtable, 0, 0⟩, memtable := [] } := rfl
    rw [hp, prepareReport_pipe]
    exact .swap hpc

theorem writeEntry_pipeStep {b : Batch} {rot cr : CreateResult} {fw : FwriteResult} (hpc : s.async = .batch b)
    (h : s.writeEntry b rot cr fw = some s') : PipeStep s.pipe (.writeEntry rot cr fw) s'.pipe := by
  rcases writeEntry_cases h with ⟨hr, rfl⟩ | ⟨e, rest, hr, hfit, w, ⟨hw, rfl⟩ | ⟨hw, rfl⟩⟩
  · exact .done b hpc hr
  · have hw' : s.pipe.writeCall e rot cr fw = (w, false) := hw
    have := PipeStep.refused b e rest (p := s.pipe) hpc hr hfit (by rw [hw'])
    rwa [hw'] at this
  · have hw' : s.pipe.writeCall e rot cr fw = (w, true) := hw
    have := PipeStep.written b e rest (p := s.pipe) hpc hr (by rw [hw'])
    rwa [hw'] at this

theorem update_pipe {b : Batch} {x : Waiter} (h : s.update b x = some s') :
    s'.pipe =
      { s.pipe with
        memtable := b.rest ++ s.memtable
        memtable_size := s.memtable_size - b.current_written_size
        flushed_log_index := s.flushed_log_index + b.current_flushed_logs
        async := .top } := by
  have hs : s'.pipe = (s.endBatch b).pipe := by
    rcases update_cases h with ⟨-, hn⟩ | ⟨-, rfl⟩ | ⟨-, rfl⟩
    · exact notifyOne_pipe hn
    · rfl
    · rfl
  rw [hs, ← endBatch_memtable]
  unfold LogWritter.endBatch LogWritter.splice
  split <;> rfl

theorem update_pipeStep {b : Batch} {x : Waiter} (hpc : s.async = .relock b) (h : s.update b x = some s') :
    PipeStep s.pipe (.update x) s'.pipe := by
  rw [update_pipe h]
  exact .update b hpc

/-- **Every step of the logger does to its pipe one of the things of `PipeStep`.** -/
theorem step_pipe {a : Act} (h0 : s.misslog_len = 0) (h : s.step a = some s') : PipeStep s.pipe a s'.pipe := by
  cases step_did h with
  | writeLog => rw [writeLog_pipe]; exact .stutter
  | allocate => rw [allocate_pipe]; exact .stutter
  | miss => rw [miss_pipe]; exact .stutter
  | retry => rw [retry_pipe]; exact .stutter
  | retryMiss => exact .stutter
  | format _ _ h => exact write_pipeStep h
  | write _ _ h => exact write_pipeStep h
  | wake => rw [waitLoop_pipe]; exact .stutter
  | spurious => exact .stutter
  | lock hpc => exact .lock hpc
  | iterate hpc => exact iterate_pipeStep hpc
  | writeEntry hpc h => exact writeEntry_pipeStep hpc h
  | flush hpc =>
    unfold LogWritter.flush
    rw [writeReport_eq_self h0]
    exact .flush _ _ hpc
  | update hpc h => exact update_pipeStep hpc h
  | setLogLevel => exact .stutter
  | setSyncLoglevel => split <;> exact .stutter
  | setFileRotateSize => exact .resize _
  | stop => exact .stutter

end Pieces

/-! ## The accounting of the queue -/

/-- The indices, the sizes and the queues agree with the history of the pushes. -/
structure Accounted (p : Pipe) : Prop where
  seqs : p.pushed.map Entry.seq = List.range p.pushed.length
  written : p.written_log_index = p.pushed.length
  le : p.flushed_log_index ≤ p.pushed.length
  queue : p.pushed.drop p.flushed_log_index = p.async.table ++ p.memtable
  size : p.memtable_size = ((p.async.table ++ p.memtable).map Entry.message_len).sum
  counted : p.async.Counted

/-- A change of the program counter that keeps the table and its counters. -/
theorem Accounted.move {p : Pipe} (hi : Accounted p) {pc : AsyncPc} {w : FileWritter}
    (ht : pc.table = p.async.table) (hc : pc.Counted) : Accounted { p with async := pc, file_writer := w } :=
  ⟨hi.seqs, hi.written, hi.le, by rw [hi.queue]; show _ = pc.table ++ _; rw [ht],
    by rw [hi.size]; show _ = ((pc.table ++ _).map _).sum; rw [ht], hc⟩

theorem accounted_push {p : Pipe} (hi : Accounted p) {e : Entry} (he : e.seq = p.pushed.length) :
    Accounted
      { p with
        memtable := p.memtable ++ [e]
        written_log_index := p.written_log_index + 1
        memtable_size := p.memtable_size + e.message_len
        pushed := p.pushed ++ [e] } where
  seqs := by simp [hi.seqs, he, List.range_succ]
  written := by simp [hi.written]
  le := by have := hi.le; simp; omega
  queue := by
    dsimp only
    rw [List.drop_append_of_le_length hi.le, hi.queue, List.append_assoc]
  size := by simp [hi.size, List.sum_append, Nat.add_assoc]
  counted := hi.counted

theorem accounted_update {p : Pipe} (hi : Accounted p) {b : Batch} (h : p.async = .relock b) :
    Accounted
      { p with
        memtable := b.rest ++ p.memtable
        memtable_size := p.memtable_size - b.current_written_size
        flushed_log_index := p.flushed_log_index + b.current_flushed_logs
        async := .top } := by
  obtain ⟨hs, hw, hle, hq, hz, hc⟩ := hi
  rw [h] at hq hz hc
  obtain ⟨hc1, hc2⟩ := hc
  have hq' : p.pushed.drop (p.flushed_log_index + b.current_flushed_logs) = b.rest ++ p.memtable := by
    rw [← List.drop_drop, hq, hc1]
    show ((b.written ++ b.rest) ++ p.memtable).drop b.written.length = _
    rw [List.append_assoc, List.drop_left]
  refine ⟨hs, hw, ?_, hq', ?_, trivial⟩
  · have hl := congrArg List.length hq
    simp only [AsyncPc.table, List.length_drop, List.length_append] at hl
    dsimp only
    omega
  · dsimp only
    rw [hz, hc2]
    simp only [AsyncPc.table, List.map_append, List.sum_append, List.nil_append]
    omega

theorem accounted_step {p p' : Pipe} {a : Act} (hi : Accounted p) (h : PipeStep p a p') : Accounted p' := by
  have hc := hi.counted
  cases h with
  | stutter => exact hi
  | push e he => exact accounted_push hi he
  | resize n => exact ⟨hi.seqs, hi.written, hi.le, hi.queue, hi.size, hi.counted⟩
  | lock h => exact hi.move (by rw [h]; rfl) trivial
  | park h => exact hi.move (by rw [h]; rfl) trivial
  | exit h => exact hi.move (by rw [h]; rfl) trivial
  | swap h =>
    refine ⟨hi.seqs, hi.written, hi.le, ?_, ?_, rfl, rfl⟩
    · rw [hi.queue, h]
      simp [AsyncPc.table]
    · rw [hi.size, h]
      simp [AsyncPc.table]
  | done b h =>
    rw [h] at hc
    exact hi.move (by rw [h]; rfl) hc
  | refused b e rest h =>
    rw [h] at hc
    exact hi.move (by rw [h]; rfl) hc
  | written b e rest h hr =>
    rw [h] at hc
    refine hi.move (by rw [h]; simp [AsyncPc.table, hr]) ⟨?_, ?_⟩
    · simp [hc.1]
    · simp [hc.2]
  | flush b _ h =>
    rw [h] at hc
    exact hi.move (by rw [h]; rfl) hc
  | update b h => exact accounted_update hi h

theorem accounted_new (filename : String) (r : CreateResult) (n : Nat) : Accounted (LogWritter.new filename r n).pipe :=
  ⟨rfl, rfl, le_rfl, rfl, rfl, trivial⟩

theorem reach_accounted {s : LogWritter} (h : Reach logger s) : Accounted s.pipe := by
  refine h.invariant (I := fun s => Accounted s.pipe) ?_ fun s a s' hr hi hs => ?_
  · rintro s ⟨filename, r, n, rfl⟩
    exact accounted_new filename r n
  · exact accounted_step hi (step_pipe (misslog_len_eq_zero hr) hs)

end BeanRaft.Logger
