import BeanRaft.Logger.Durable

/-!
# BeanRaft.Logger.Rotation — records and file sizes over the rotations

The batch loop of asyncRun with `rotate` between two records, where any number of files cannot be created.

* `Plain`: the environment of this module: `fwrite` takes everything, `errno` is never `ENOSPC`, and the maximal file
  size stays as it is.  A creation may always fail.
* `Rotated`: the bodies of the files are the accepted records in order, `file_size` is the size of the open file, no
  file is larger than the maximum and its last record, and the page cache is only cleared of an open file.
* `Sized`: the invariant of the files behind it, which every call keeps.  A file is far below the 2^64 bytes at which
  its size would wrap.
-/

namespace BeanRaft.Logger

open Lts

variable {s s' : LogWritter} {p p' : Pipe} {w : FileWritter} {n : Nat}

/-- The bytes of a file. -/
def LogFile.size (f : LogFile) : Nat := f.header_len + (f.body.map Frag.put).sum

/-- The bytes of the last `fwrite` into a file, after the header. -/
def LogFile.last (f : LogFile) : Nat := (f.body.getLast?.map Frag.put).getD 0

def CreateResult.errno : CreateResult → Errno
  | failed e => e
  | created _ e => e

/-- `fwrite` takes everything, no call sets `errno` to `ENOSPC`, and the maximal file size is not changed. -/
def Plain : Act → Prop
  | .writeEntry rot cr fw => rot.errno ≠ ENOSPC ∧ cr.errno ≠ ENOSPC ∧ fw = .ok
  | .flush cr fw errno => cr.errno ≠ ENOSPC ∧ fw = .ok ∧ errno ≠ ENOSPC
  | .setFileRotateSize _ => False
  | _ => True

instance : ∀ a, Decidable (Plain a)
  | .writeEntry rot cr fw => inferInstanceAs (Decidable (rot.errno ≠ ENOSPC ∧ cr.errno ≠ ENOSPC ∧ fw = .ok))
  | .flush cr fw errno => inferInstanceAs (Decidable (cr.errno ≠ ENOSPC ∧ fw = .ok ∧ errno ≠ ENOSPC))
  | .setFileRotateSize _ => isFalse id
  | .writeLog _ _ | .allocate _ | .miss _ | .retry _ | .retryMiss _ | .format _ _ _ | .write _ _ _ _ _ | .wake _
  | .spurious _ | .lock | .iterate | .update _ | .setLogLevel _ | .setSyncLoglevel _ | .stop => isTrue trivial

structure Rotated (s : LogWritter) : Prop where
  /-- The accepted records, in the order of their pushes, each whole in one file. -/
  bodies : s.file_writer.content = (s.pushed.take s.pipe.accepted).map wholeRecord
  complete : ∀ s', s.step .iterate = some s' → s'.async = .exited → s'.records = s'.pushed.map wholeRecord
  size : s.file_writer.file_size = (s.file_writer.stream.map LogFile.size).getD 0
  bound : ∀ f ∈ s.file_writer.files, f.size ≤ max s.max_file_size f.header_len + f.last
  /-- When `clearAllPageCache` is called in the batch loop, there is a stream. -/
  cache : ∀ b, s.async = .batch b → b.rest ≠ [] → s.max_file_size < s.file_writer.file_size →
    s.file_writer.stream.isSome = true

/-! ## The calls of the file and the sizes -/

/-- The open file is counted, the files are not too large, and `errno` is not `ENOSPC`. -/
structure Sized (n : Nat) (w : FileWritter) : Prop where
  name : w.filename ≠ ""
  errno : w.errno ≠ ENOSPC
  size : w.file_size = (w.stream.map LogFile.size).getD 0
  bound : ∀ f ∈ w.files, f.size ≤ max n f.header_len + f.last

/-- The open file may take one more record. -/
def Ready (n : Nat) (w : FileWritter) : Prop := ∀ f, w.stream = some f → f.size ≤ max n f.header_len

theorem closeStream_files : w.closeStream.files = w.files := by
  unfold FileWritter.closeStream
  split
  · rfl
  · rename_i f hf
    simp [FileWritter.files, hf]

theorem closeStream_filename : w.closeStream.filename = w.filename := by
  unfold FileWritter.closeStream
  split <;> rfl

/-- What holds of all files, when another file is open in place of the one that was. -/
theorem forall_files {w' : FileWritter} {P : LogFile → Prop} {f : LogFile} (h : ∀ g ∈ w.files, P g)
    (hw : w'.files = w.closed ++ [f]) (hf : P f) : ∀ g ∈ w'.files, P g := by
  rw [hw]
  exact List.forall_mem_append.mpr ⟨fun g hg => h g (List.mem_append_left _ hg), List.forall_mem_singleton.mpr hf⟩

/-- A new file has its header alone. -/
theorem sized_createFile (hname : w.filename ≠ "") (hb : ∀ f ∈ w.files, f.size ≤ max n f.header_len + f.last)
    {r : CreateResult} (he : r.errno ≠ ENOSPC) : Sized n (w.createFile r) ∧ Ready n (w.createFile r) := by
  have hclosed : ∀ f ∈ ({ w with file_size := 0 }.closeStream).files, f.size ≤ max n f.header_len + f.last := by
    rw [closeStream_files]
    exact hb
  have hstream : ({ w with file_size := 0 }.closeStream).stream = none := closeStream_stream
  have hsize : ({ w with file_size := 0 }.closeStream).file_size = 0 := by
    unfold FileWritter.closeStream
    split <;> rfl
  have hname' : ({ w with file_size := 0 }.closeStream).filename ≠ "" := by
    rw [closeStream_filename]
    exact hname
  unfold FileWritter.createFile
  rw [if_neg hname]
  generalize { w with file_size := 0 }.closeStream = w' at hclosed hstream hsize hname'
  cases r with
  | failed e =>
    refine ⟨⟨hname', he, ?_, hclosed⟩, fun f hf => ?_⟩
    · show w'.file_size = (w'.stream.map LogFile.size).getD 0
      rw [hstream, hsize]
      rfl
    · have hf' : w'.stream = some f := hf
      rw [hstream] at hf'
      simp at hf'
  | created m e =>
    refine ⟨⟨hname', he, rfl, forall_files hclosed rfl ?_⟩, fun f hf => ?_⟩
    · show m + 0 ≤ max n m + 0
      omega
    · obtain rfl := Option.some.inj hf
      show m + 0 ≤ max n m
      omega

/-- After the rotation check there is room for one more record. -/
theorem sized_rotateIfNeed (h : Sized n w) {r : CreateResult} (he : r.errno ≠ ENOSPC) :
    Sized n (w.rotateIfNeed n r) ∧ Ready n (w.rotateIfNeed n r) := by
  unfold FileWritter.rotateIfNeed FileWritter.rotate
  rw [if_neg h.name]
  split_ifs with hlarge
  · refine sized_createFile ?_ ?_ he
    · rw [closeStream_filename]
      exact h.name
    · rw [closeStream_files]
      exact h.bound
  · refine ⟨h, fun f hf => ?_⟩
    have hsize := h.size
    rw [hf] at hsize
    have hf' : w.file_size = f.size := hsize
    omega

theorem sized_ensure (h : Sized n w) (hr : Ready n w) {r : CreateResult} (he : r.errno ≠ ENOSPC) :
    Sized n (w.ensure r) ∧ Ready n (w.ensure r) := by
  unfold FileWritter.ensure
  split_ifs
  · exact sized_createFile h.name h.bound he
  · exact ⟨h, hr⟩

/-- A `write` with a file, where `errno` is not `ENOSPC`, puts the line into it and counts it. -/
theorem write_ok_of_stream {l : Line} {cr : CreateResult} {f : LogFile} (hs : (w.ensure cr).stream = some f)
    (he : (w.ensure cr).errno ≠ ENOSPC) :
    w.write l cr .ok =
      ({ w.ensure cr with
          stream := some { f with body := f.body ++ [whole l] }
          file_size := (w.ensure cr).file_size + l.len }, true) := by
  simp [FileWritter.write, hs, FwriteResult.errno, FwriteResult.frags, he]

/-- `write` counts what it puts into the file. -/
theorem sized_write (h : Sized n w) (hr : Ready n w) (l : Line) {cr : CreateResult} (he : cr.errno ≠ ENOSPC) :
    Sized n (w.write l cr .ok).1 := by
  obtain ⟨h', hr'⟩ := sized_ensure h hr he
  cases hs : (w.ensure cr).stream with
  | none =>
    rw [write_of_no_stream hs]
    exact h'
  | some f =>
    have hsize := h'.size
    rw [hs] at hsize
    have hcur : (w.ensure cr).file_size = f.size := hsize
    have hroom := hr' f hs
    have hnew : LogFile.size { f with body := f.body ++ [whole l] } = f.size + l.len := by
      simp [LogFile.size, whole, Nat.add_assoc]
    rw [write_ok_of_stream hs h'.errno]
    refine ⟨h'.name, h'.errno, ?_, forall_files h'.bound rfl ?_⟩
    · show (w.ensure cr).file_size + l.len = LogFile.size { f with body := f.body ++ [whole l] }
      rw [hnew, hcur]
    · have hlast : LogFile.last { f with body := f.body ++ [whole l] } = l.len := by
        simp [LogFile.last, whole]
      rw [hnew, hlast]
      show f.size + l.len ≤ max n f.header_len + l.len
      omega

theorem sized_flush (h : Sized n w) {e : Errno} (he : e ≠ ENOSPC) : Sized n (w.flush e) := by
  unfold FileWritter.flush
  cases hs : w.stream with
  | none => exact h
  | some f =>
    have hbound := h.bound f (by simp [FileWritter.files, hs])
    have hsize := h.size
    rw [hs] at hsize
    refine ⟨h.name, he, ?_, forall_files h.bound rfl ?_⟩
    · refine hsize.trans ?_
      dsimp only
      split_ifs <;> rfl
    · split_ifs <;> exact hbound

/-- When `write` returns false, it has no file. -/
theorem puts_of_write_false (h : Sized n w) (hr : Ready n w) {l : Line} {cr : CreateResult} (he : cr.errno ≠ ENOSPC)
    (hw : (w.write l cr .ok).2 = false) : w.puts l cr .ok = false := by
  obtain ⟨h', -⟩ := sized_ensure h hr he
  cases hs : (w.ensure cr).stream with
  | none => simp [FileWritter.puts, hs]
  | some f =>
    rw [write_ok_of_stream hs h'.errno] at hw
    simp at hw

/-! ## The steps -/

/-- Only the setter changes the maximal file size. -/
theorem step_max_file_size {a : Act} (h : s.step a = some s') (ha : Plain a) : s'.max_file_size = s.max_file_size := by
  -- every other action is looked at through the pipe
  have same : ∀ {p : Pipe}, s'.pipe = p → s'.max_file_size = p.max_file_size := fun hp => congrArg Pipe.max_file_size hp
  cases step_did h with
  | writeLog => exact same (writeLog_pipe _ _)
  | allocate => exact same (allocate_pipe _ _ _)
  | miss => exact same (miss_pipe _ _ _)
  | retry => exact same (retry_pipe _ _)
  | retryMiss => rfl
  | format _ _ hw => exact same (write_pipe hw)
  | write _ _ hw => exact same (write_pipe hw)
  | wake => exact same (waitLoop_pipe _ _)
  | spurious => rfl
  | lock => rfl
  | iterate =>
    rcases iterate_cases s with ⟨-, -, h'⟩ | ⟨-, -, -, h'⟩ | ⟨-, -, h'⟩ | ⟨-, h'⟩ <;> rw [h']
    exact congrArg Pipe.max_file_size prepareReport_pipe
  | writeEntry _ hw => rcases writeEntry_cases hw with ⟨-, rfl⟩ | ⟨_, _, -, -, _, ⟨-, rfl⟩ | ⟨-, rfl⟩⟩ <;> rfl
  | flush => unfold LogWritter.flush LogWritter.writeReport; split <;> rfl
  | update _ hu => exact same (update_pipe hu)
  | setLogLevel => rfl
  | setSyncLoglevel => split <;> rfl
  | setFileRotateSize => exact absurd ha id
  | stop => rfl

/-- The records are in order, none is cut, and the files are counted. -/
structure Kept (n : Nat) (p : Pipe) : Prop where
  ordered : Ordered p
  whole : p.file_writer.spilled = false
  sized : Sized n p.file_writer

theorem kept_step {a : Act} (hi : Accounted p) (h : Kept n p) (hs : PipeStep p a p') (ha : Plain a)
    (hmax : p.max_file_size = n) : Kept n p' := by
  subst hmax
  obtain ⟨ho, hw, hz⟩ := h
  have hord : Ordered p' := ordered_step hi ho hs fun _ _ _ _ _ _ _ _ _ _ => hw
  cases hs with
  | stutter => exact ⟨hord, hw, hz⟩
  | push => exact ⟨hord, hw, hz⟩
  | resize => exact ⟨hord, hw, hz⟩
  | lock => exact ⟨hord, hw, hz⟩
  | park => exact ⟨hord, hw, hz⟩
  | exit => exact ⟨hord, hw, hz⟩
  | swap => exact ⟨hord, hw, hz⟩
  | done => exact ⟨hord, hw, hz⟩
  | refused b e rest _ _ _ hres =>
    obtain ⟨hrot, hcr, rfl⟩ := ha
    obtain ⟨hz', hr'⟩ := sized_rotateIfNeed hz hrot
    refine ⟨hord, ?_, sized_write hz' hr' _ hcr⟩
    have hsp := write_false hres
    rw [rotateIfNeed_spilled, hw, puts_of_write_false hz' hr' hcr hres] at hsp
    exact hsp
  | written b e rest _ _ hres =>
    obtain ⟨hrot, hcr, rfl⟩ := ha
    obtain ⟨hz', hr'⟩ := sized_rotateIfNeed hz hrot
    refine ⟨hord, ?_, sized_write hz' hr' _ hcr⟩
    obtain ⟨-, -, hsp, -⟩ := write_true hres
    rw [rotateIfNeed_spilled, hw] at hsp
    exact hsp
  | flush =>
    obtain ⟨-, -, he⟩ := ha
    refine ⟨hord, ?_, sized_flush hz he⟩
    rw [flush_spilled]
    exact hw
  | update => exact ⟨hord, hw, hz⟩

theorem rotated_of_kept (hi : Accounted s.pipe) (h : Kept s.max_file_size s.pipe) : Rotated s where
  bodies := by
    rcases h.ordered with ⟨-, hc⟩ | ⟨hs, -⟩
    · exact hc
    · exact absurd (h.whole.symm.trans hs) Bool.false_ne_true
  complete s' hs he := complete_of_exit hi h.ordered hs he
  size := h.sized.size
  bound := h.sized.bound
  cache b _ _ hlarge := by
    have hsize : s.file_writer.file_size = (s.file_writer.stream.map LogFile.size).getD 0 := h.sized.size
    cases hst : s.file_writer.stream with
    | none =>
      rw [hst] at hsize
      have h0 : s.file_writer.file_size = 0 := hsize
      omega
    | some f => rfl

theorem kept_new {filename : String} (hname : filename ≠ "") {r : CreateResult} (he : r.errno ≠ ENOSPC) (n : Nat) :
    Kept n (LogWritter.new filename r n).pipe := by
  have hz := (sized_createFile (w := ⟨filename, 0, none, none, 0, [], false⟩) (n := n) hname
    (fun f hf => absurd hf List.not_mem_nil) he).1
  refine ⟨ordered_new filename r n, ?_, ⟨hz.name, ?_, hz.size, hz.bound⟩⟩
  · show (FileWritter.createFile _ r).spilled = false
    rw [createFile_spilled]
  · show (0 : Errno) ≠ ENOSPC
    decide

/-- **Rotation neither splits, loses nor reorders records, and bounds the files**: in every state of every run with a
file name, whatever the creations of the files return. -/
theorem rotated_always {filename : String} (hname : filename ≠ "") {r : CreateResult} (he : r.errno ≠ ENOSPC) (n : Nat)
    {acts : List Act} (hok : ∀ a ∈ acts, Plain a) : Always logger Rotated (.new filename r n) acts := by
  refine always_of_stepsOk (I := fun s => Reach logger s ∧ s.max_file_size = n ∧ Kept n s.pipe) ?_ ?_
    ⟨.init ⟨filename, r, n, rfl⟩, rfl, kept_new hname he n⟩ (stepsOk_of_forall hok _)
  · rintro s ⟨hr, rfl, hk⟩
    exact rotated_of_kept (reach_accounted hr) hk
  · rintro s a s' ⟨hr, hmax, hk⟩ ha hs
    exact ⟨hr.step hs, (step_max_file_size hs ha).trans hmax,
      kept_step (reach_accounted hr) hk (step_pipe (misslog_len_eq_zero hr) hs) ha hmax⟩

/-- Two records with a maximum of one byte; the file between them cannot be created at first. -/
def rotations : List Act :=
  [.write 0 false 7 ['a'] .async, .write 0 false 8 ['b', 'c'] .async, .lock, .iterate,
    .writeEntry (.created 90 0) (.failed 17) .ok, .writeEntry (.failed 17) (.failed 17) .ok,
    .flush (.failed 17) .ok 0, .update .async, .iterate]

theorem rotations_rotated : Always logger Rotated (.new "log" (.created 100 0) 1) rotations :=
  rotated_always (by decide) (by decide) 1 (by decide)

end BeanRaft.Logger
