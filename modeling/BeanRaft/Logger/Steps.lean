import BeanRaft.Logger.LogWritter

/-!
# BeanRaft.Logger.Steps — what one action can do

The inversion lemmas every invariant of the logger is derived from, so that no later proof unfolds `step`.

* `Did s a s'`: one constructor for each section of the code, with the guard it was entered under.
  `step_did`: a step is one of these.
* `write_cases`, `notifyOne_cases`, `iterate_cases`, `writeEntry_cases`, `update_cases`: the ends of the sections
  that branch.
-/

namespace BeanRaft.Logger

open Lts

variable {s s' : LogWritter}

/-- The section of the code an action runs, with its guard. -/
inductive Did (s : LogWritter) : Act → LogWritter → Prop
  | writeLog {t : Tid} {level : Int} (hmu : s.muFree) (hpc : s.writers t = .idle) :
    Did s (.writeLog t level) (s.writeLog t level)
  | allocate {t : Tid} {level : Int} {f : Bool} (hpc : s.writers t = .allocating level f) :
    Did s (.allocate t) (s.allocate t level f)
  | miss {t : Tid} {level : Int} {f : Bool} (hmu : s.muFree) (hpc : s.writers t = .missed level f) :
    Did s (.miss t) (s.miss t level f)
  | retry {t : Tid} {f : Bool} (hpc : s.writers t = .retrying f) : Did s (.retry t) (s.retry t f)
  | retryMiss {t : Tid} (hmu : s.muFree) (hpc : s.writers t = .retryMissed) : Did s (.retryMiss t) (s.drop t)
  | format {t : Tid} {buf : Nat} {f : Bool} {text : Text} {x : Waiter} {s' : LogWritter} (hmu : s.muFree)
    (hpc : s.writers t = .formatting buf f) (h : s.write t f buf text x = some s') : Did s (.format t text x) s'
  | write {t : Tid} {f : Bool} {m : Nat} {text : Text} {x : Waiter} {s' : LogWritter} (hmu : s.muFree)
    (hpc : s.writers t = .idle) (h : s.write t f m text x = some s') : Did s (.write t f m text x) s'
  | wake {t : Tid} {need : Nat} (hmu : s.muFree) (hpc : s.writers t = .waiting need) (hcv : .writer t ∉ s.cv) :
    Did s (.wake t) (s.waitLoop t need)
  | spurious {x : Waiter} (hcv : x ∈ s.cv) : Did s (.spurious x) { s with cv := s.cv.erase x }
  | lock (hpc : s.async = .waiting) (hcv : .async ∉ s.cv) : Did s .lock { s with async := .top }
  | iterate (hpc : s.async = .top) : Did s .iterate s.iterate
  | writeEntry {b : Batch} {rot cr : CreateResult} {fw : FwriteResult} {s' : LogWritter} (hpc : s.async = .batch b)
    (h : s.writeEntry b rot cr fw = some s') : Did s (.writeEntry rot cr fw) s'
  | flush {b : Batch} {cr : CreateResult} {fw : FwriteResult} {errno : Errno} (hpc : s.async = .flushing b) :
    Did s (.flush cr fw errno) (s.flush b cr fw errno)
  | update {b : Batch} {x : Waiter} {s' : LogWritter} (hpc : s.async = .relock b) (h : s.update b x = some s') :
    Did s (.update x) s'
  | setLogLevel {level : Int} (hmu : s.muFree) : Did s (.setLogLevel level) { s with loglevel := level }
  | setSyncLoglevel {level : Int} (hmu : s.muFree) :
    Did s (.setSyncLoglevel level) (if level < s.loglevel then s else { s with sync_loglevel := level })
  | setFileRotateSize {mb : Nat} (hmu : s.muFree) :
    Did s (.setFileRotateSize mb) { s with max_file_size := 2 ^ 20 * mb % 2 ^ 64 }
  | stop (hmu : s.muFree) : Did s .stop { s with running := false, cv := ∅ }

theorem step_did {a : Act} (h : s.step a = some s') : Did s a s' := by
  cases a <;> simp only [LogWritter.step, Option.ite_none_right_eq_some, Option.some.injEq] at h
  case writeLog t level => rw [← h.2]; exact .writeLog h.1.1 h.1.2
  case allocate t => split at h <;> cases h; exact .allocate ‹_›
  case miss t =>
    split at h
    · rw [Option.ite_none_right_eq_some, Option.some.injEq] at h
      rw [← h.2]; exact .miss h.1 ‹_›
    · simp at h
  case retry t => split at h <;> cases h; exact .retry ‹_›
  case retryMiss t => rw [← h.2]; exact .retryMiss h.1.1 h.1.2
  case format t text x =>
    split at h
    · rw [Option.ite_none_right_eq_some] at h
      exact .format h.1 ‹_› h.2
    · simp at h
  case write t f m text x => exact .write h.1.1 h.1.2 h.2
  case wake t =>
    split at h
    · rw [Option.ite_none_right_eq_some, Option.some.injEq] at h
      rw [← h.2]; exact .wake h.1.1 ‹_› h.1.2
    · simp at h
  case spurious x => rw [← h.2]; exact .spurious h.1
  case lock => rw [← h.2]; exact .lock h.1.1 h.1.2
  case iterate => rw [← h.2]; exact .iterate h.1
  case writeEntry rot cr fw =>
    split at h
    · exact .writeEntry ‹_› h
    · simp at h
  case flush cr fw errno => split at h <;> cases h; exact .flush ‹_›
  case update x =>
    split at h
    · exact .update ‹_› h
    · simp at h
  case setLogLevel level => rw [← h.2]; exact .setLogLevel h.1
  case setSyncLoglevel level => rw [← h.2]; exact .setSyncLoglevel h.1
  case setFileRotateSize mb => rw [← h.2]; exact .setFileRotateSize h.1
  case stop => rw [← h.2]; exact .stop h.1

/-! ## The ends of the sections that branch -/

/-- What one quantity `g` of the writers becomes. -/
theorem setWriter_comp {β : Type} (g : WriterPc → β) (s : LogWritter) (t : Tid) (pc : WriterPc) :
    g ∘ (s.setWriter t pc).writers = Function.update (g ∘ s.writers) t (g pc) := Function.comp_update _ _ _ _

theorem setWriter_comp_self {β : Type} {g : WriterPc → β} {t : Tid} {pc : WriterPc} (h : g pc = g (s.writers t)) :
    g ∘ (s.setWriter t pc).writers = g ∘ s.writers := by
  rw [setWriter_comp]
  exact Function.update_eq_self_iff.mpr h

theorem notifyOne_cases {x : Waiter} (h : s.notifyOne x = some s') :
    (x ∈ s.cv ∧ s' = { s with cv := s.cv.erase x }) ∨ (s.cv = ∅ ∧ s' = s) := by
  unfold LogWritter.notifyOne at h
  split_ifs at h with h1 h2
  · exact .inl ⟨h1, (Option.some.inj h).symm⟩
  · exact .inr ⟨h2, (Option.some.inj h).symm⟩

/-- `waitLoop` parks the writer or ends its call. -/
theorem waitLoop_cases (s : LogWritter) (t : Tid) (need : Nat) :
    (s.flushed_log_index < need ∧
      s.waitLoop t need = { s.setWriter t (.waiting need) with cv := insert (.writer t) s.cv }) ∨
    (need ≤ s.flushed_log_index ∧
      s.waitLoop t need = { s.setWriter t .idle with blocked_threads := s.blocked_threads - 1 }) := by
  unfold LogWritter.waitLoop
  split_ifs with h
  · exact .inl ⟨h, rfl⟩
  · exact .inr ⟨Nat.le_of_not_lt h, rfl⟩

/-- `write` after the push of its entry: it is downgraded, waits, wakes others, or just returns. -/
theorem write_cases {t : Tid} {f : Bool} {m : Nat} {text : Text} {x : Waiter}
    (h : s.write t f m text x = some s') :
    let p := (s.setWriter t .idle).push m text
    (0 < s.disk_full_try_times ∧ s' = { p with disk_full_try_times := p.disk_full_try_times - 1 }) ∨
    (f = true ∧
      s' = ({ p with blocked_threads := p.blocked_threads + 1 }).notifyAll.waitLoop t p.written_log_index) ∨
    (f = false ∧ (s' = p ∨ s' = p.notifyAll ∨ (p.blocked_threads = 0 ∧ p.notifyOne x = some s'))) := by
  unfold LogWritter.write at h
  dsimp only at h ⊢
  split_ifs at h with h1 h2 h3 h4 h5
  · exact .inl ⟨h2, (Option.some.inj h).symm⟩
  · exact .inr (.inl ⟨h1, (Option.some.inj h).symm⟩)
  · exact .inl ⟨h4, (Option.some.inj h).symm⟩
  · exact .inr (.inr ⟨by simpa using h1, .inr (.inl (Option.some.inj h).symm)⟩)
  · exact .inr (.inr ⟨by simpa using h1, .inr (.inr ⟨by omega, h⟩)⟩)
  · exact .inr (.inr ⟨by simpa using h1, .inl (Option.some.inj h).symm⟩)

/-- One turn of the outer loop: park, count down, exit, or take `memtable`. -/
theorem iterate_cases (s : LogWritter) :
    (s.running = true ∧ s.memtable = [] ∧ s.iterate = { s with async := .waiting, cv := insert .async s.cv }) ∨
    (s.running = true ∧ s.memtable ≠ [] ∧ 0 < s.disk_full_try_times ∧
      s.iterate = { s with disk_full_try_times := s.disk_full_try_times - 1 }) ∨
    (s.running = false ∧ s.memtable = [] ∧ s.iterate = { s with async := .exited }) ∨
    (s.memtable ≠ [] ∧
      s.iterate = { s.prepareReport with async := .batch ⟨[], s.memtable, 0, 0⟩, memtable := [] }) := by
  unfold LogWritter.iterate
  split_ifs with h1 h2 h3
  · exact .inl ⟨h1.1, h1.2, rfl⟩
  · exact .inr (.inl ⟨h2.2, fun hm => h1 ⟨h2.2, hm⟩, h2.1, rfl⟩)
  · exact .inr (.inr (.inl ⟨by simpa using h3.1, h3.2, rfl⟩))
  · refine .inr (.inr (.inr ⟨fun hm => ?_, rfl⟩))
    by_cases hr : s.running = true
    · exact h1 ⟨hr, hm⟩
    · exact h3 ⟨hr, hm⟩

/-- One turn of the batch loop: the table is at its end, the entry is refused, or it is written. -/
theorem writeEntry_cases {b : Batch} {rot cr : CreateResult} {fw : FwriteResult}
    (h : s.writeEntry b rot cr fw = some s') :
    (b.rest = [] ∧ s' = { s with async := .flushing b }) ∨
    ∃ e rest, b.rest = e :: rest ∧ fw.Fits (.record e) ∧ ∃ w,
      ((s.file_writer.rotateIfNeed s.max_file_size rot).write (.record e) cr fw = (w, false) ∧
        s' = { s with file_writer := w, async := .flushing b }) ∨
      ((s.file_writer.rotateIfNeed s.max_file_size rot).write (.record e) cr fw = (w, true) ∧
        s' = { s with
          file_writer := w
          alloc := s.alloc.deallocate e.message
          async := .batch ⟨b.written ++ [e], rest, b.current_flushed_logs + 1,
            b.current_written_size + e.message_len⟩ }) := by
  unfold LogWritter.writeEntry at h
  split at h
  · exact .inl ⟨‹_›, (Option.some.inj h).symm⟩
  · rename_i e rest hr
    split_ifs at h with hfit
    refine .inr ⟨e, rest, hr, hfit, ?_⟩
    split at h
    · exact ⟨_, .inl ⟨‹_›, (Option.some.inj h).symm⟩⟩
    · exact ⟨_, .inr ⟨‹_›, (Option.some.inj h).symm⟩⟩

theorem update_cases {b : Batch} {x : Waiter} (h : s.update b x = some s') :
    let c := s.endBatch b
    (c.blocked_threads = 1 ∧ c.notifyOne x = some s') ∨ (1 < c.blocked_threads ∧ s' = c.notifyAll) ∨
    (c.blocked_threads = 0 ∧ s' = c) := by
  unfold LogWritter.update at h
  dsimp only at h ⊢
  split_ifs at h with h1 h2
  · exact .inl ⟨h1, h⟩
  · exact .inr (.inl ⟨h2, (Option.some.inj h).symm⟩)
  · exact .inr (.inr ⟨by omega, (Option.some.inj h).symm⟩)

/-- `endBatch` puts back what was not written; when everything was, `memtable` is as before. -/
theorem endBatch_memtable (s : LogWritter) (b : Batch) : (s.endBatch b).memtable = b.rest ++ s.memtable := by
  unfold LogWritter.endBatch LogWritter.splice
  split_ifs with hr
  · rw [hr]; rfl
  · rfl

/-- The fields of the logger that the end of a batch leaves alone. -/
theorem endBatch_frame (s : LogWritter) (b : Batch) :
    (s.endBatch b).writers = s.writers ∧ (s.endBatch b).blocked_threads = s.blocked_threads ∧
      (s.endBatch b).cv = s.cv ∧ (s.endBatch b).pushed = s.pushed ∧
      (s.endBatch b).written_log_index = s.written_log_index ∧ (s.endBatch b).file_writer = s.file_writer ∧
      (s.endBatch b).alloc = s.alloc ∧ (s.endBatch b).max_file_size = s.max_file_size := by
  unfold LogWritter.endBatch LogWritter.splice
  split_ifs <;> exact ⟨rfl, rfl, rfl, rfl, rfl, rfl, rfl, rfl⟩

end BeanRaft.Logger
