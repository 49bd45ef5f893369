import Mathlib.Data.List.Basic

/-!
# BeanRaft.Logger.FileWritter — the log file behind the async thread

The class `FileWritter` of `logger.cpp`: `createFile` (`_createFile`), `write`, `flush` and `rotate`.  The
environment decides every creation of a file (`CreateResult`) and every `fwrite` (`FwriteResult`).

* `errno` is the one of the thread that calls the functions; `write` judges an `fwrite` by it alone.
* A `LogFile` keeps, without its header, what each `fwrite` put into it (`body`), and how much of that a later
  `fdatasync` of this very file has covered (`synced`).
* `closed` (the files that were closed, in the order of their creation) and `spilled` are history: no function of
  the class reads them.
-/

namespace BeanRaft.Logger

/-- The bytes of a C string, one `Char` a byte. -/
abbrev Text := List Char

abbrev Errno := Nat

def ENOSPC : Errno := 28

/-- An entry of `memtable`: the message pointer, its bytes, and (history) its place in the order of the pushes. -/
structure Entry where
  message : Nat
  text : Text
  seq : Nat
  deriving DecidableEq, Repr

def Entry.message_len (e : Entry) : Nat := e.text.length

/-- What asyncRun hands to `FileWritter::write`: an entry, or the report of the missed logs. -/
inductive Line
  | record (e : Entry)
  | report (text : Text)
  deriving DecidableEq, Repr

def Line.len : Line → Nat
  | record e => e.message_len
  | report text => text.length

/-- What one `fwrite` put into a file: the first `put` bytes of a line. -/
structure Frag where
  line : Line
  put : Nat
  deriving DecidableEq, Repr

/-- All the bytes of a line. -/
def whole (l : Line) : Frag := ⟨l, l.len⟩

/-- The environment's part of an `fwrite`: everything is taken and `errno` stays as it was, or only the first `n`
bytes are taken and `errno` becomes `ENOSPC`. -/
inductive FwriteResult
  | ok
  | enospc (n : Nat)
  deriving DecidableEq, Repr

/-- A failed `fwrite` takes less than the whole line. -/
def FwriteResult.Fits (l : Line) : FwriteResult → Prop
  | ok => True
  | enospc n => n < l.len

instance (l : Line) (r : FwriteResult) : Decidable (r.Fits l) := by
  cases r <;> unfold FwriteResult.Fits <;> infer_instance

/-- What the `fwrite` of `l` leaves in the file. -/
def FwriteResult.frags (l : Line) : FwriteResult → List Frag
  | ok => [whole l]
  | enospc 0 => []
  | enospc (n + 1) => [⟨l, n + 1⟩]

def FwriteResult.errno (e : Errno) : FwriteResult → Errno
  | ok => e
  | enospc _ => ENOSPC

/-- The environment's part of `_createFile`: `open` or `fdopen` fails, or the file is there with a header of
`header_len` bytes.  The calls in it leave `errno` at any value. -/
inductive CreateResult
  | failed (errno : Errno)
  | created (header_len : Nat) (errno : Errno)
  deriving DecidableEq, Repr

/-- The files the program opens: `stdout` for an empty file name, else the `n`-th file created. -/
inductive FileId
  | stdout
  | named (n : Nat)
  deriving DecidableEq, Repr

/-- A log file: header length, what each `fwrite` put after the header, and the number of these covered by a
completed `fdatasync` of the file. -/
structure LogFile where
  id : FileId
  header_len : Nat
  body : List Frag
  synced : Nat
  deriving DecidableEq, Repr

structure FileWritter where
  filename : String
  file_size : Nat
  /-- The file that the number in `fd` names; `none` for `-1` and for a number that was never set. -/
  fd : Option FileId
  stream : Option LogFile
  errno : Errno
  closed : List LogFile
  /-- Some `fwrite` put bytes of a record into a file and `write` returned false. -/
  spilled : Bool
  deriving DecidableEq, Repr

namespace FileWritter

variable (w : FileWritter)

/-- The block `if (stream) { fclose(stream); fd = -1; stream = NULL; }` of `rotate` and `_createFile`. -/
def closeStream : FileWritter :=
  match w.stream with
  | none => w
  | some f => { w with stream := none, fd := none, closed := w.closed ++ [f] }

/-- The rest of `_createFile` once the old stream is closed (lines 200-262). -/
def openFile (r : CreateResult) : FileWritter :=
  match r with
  | .failed e => { w with fd := none, errno := e }
  | .created n e =>
    { w with
      fd := some (.named w.closed.length)
      stream := some ⟨.named w.closed.length, n, [], 0⟩
      file_size := n
      errno := e }

/-- `_createFile` (line 189).  Its result is not used by any caller; for an empty name `fd` is not set. -/
def createFile (r : CreateResult) : FileWritter :=
  if w.filename = "" then { w with file_size := 0, stream := some (w.stream.getD ⟨.stdout, 0, [], 0⟩) }
  else { w with file_size := 0 }.closeStream.openFile r

/-- The constructor (line 117), called by the thread that creates the logger: the async thread starts with an
`errno` of its own. -/
def new (name : String) (r : CreateResult) : FileWritter :=
  { createFile ⟨name, 0, none, none, 0, [], false⟩ r with errno := 0 }

/-- The file that `write` uses: `if (!stream) _createFile()` (line 135). -/
def ensure (cr : CreateResult) : FileWritter :=
  if w.stream.isNone then w.createFile cr else w

/-- `write` (line 133): the writer after the call and the value returned. -/
def write (l : Line) (cr : CreateResult) (r : FwriteResult) : FileWritter × Bool :=
  let w := w.ensure cr
  match w.stream with
  | none => (w, false)
  | some f =>
    let w := { w with stream := some { f with body := f.body ++ r.frags l }, errno := r.errno w.errno }
    if w.errno = ENOSPC then ({ w with spilled := w.spilled || !(r.frags l).isEmpty }, false)
    else ({ w with file_size := w.file_size + l.len }, true)

/-- `flush` (line 162); its calls leave `errno` at any value. -/
def flush (e : Errno) : FileWritter :=
  match w.stream with
  | none => w
  | some f =>
    { w with
      stream := some (if w.fd = some f.id then { f with synced := f.body.length } else f)
      errno := e }

/-- `rotate` (line 169). -/
def rotate (r : CreateResult) : FileWritter :=
  if w.filename = "" then w else w.closeStream.createFile r

/-- The rotation check of the batch loop of asyncRun (lines 462-465).  `clearAllPageCache` only advises the kernel. -/
def rotateIfNeed (max_file_size : Nat) (r : CreateResult) : FileWritter :=
  if w.file_size > max_file_size then w.rotate r else w

/-- The log files in the order of their creation. -/
def files : List LogFile := w.closed ++ w.stream.toList

/-- What the log files hold, in the order of their creation, without the headers. -/
def content : List Frag := w.files.flatMap LogFile.body

/-- `write` gets to an `fwrite` that puts something into the file. -/
def puts (l : Line) (cr : CreateResult) (r : FwriteResult) : Bool :=
  (w.ensure cr).stream.isSome && !(r.frags l).isEmpty

end FileWritter

/-! ## What the calls do to the content of the files -/

section Content

variable {w : FileWritter}

@[simp] theorem closeStream_content : w.closeStream.content = w.content := by
  unfold FileWritter.closeStream
  split
  · rfl
  · rename_i f hf
    simp [FileWritter.content, FileWritter.files, hf]

@[simp] theorem closeStream_stream : w.closeStream.stream = none := by
  unfold FileWritter.closeStream
  split
  · assumption
  · rfl

@[simp] theorem closeStream_spilled : w.closeStream.spilled = w.spilled := by
  unfold FileWritter.closeStream
  split <;> rfl

theorem content_of_stream {f : LogFile} (h : w.stream = some f) :
    w.content = w.closed.flatMap LogFile.body ++ f.body := by
  simp [FileWritter.content, FileWritter.files, h]

theorem content_of_no_stream (h : w.stream = none) : w.content = w.closed.flatMap LogFile.body := by
  simp [FileWritter.content, FileWritter.files, h]

@[simp] theorem openFile_content (h : w.stream = none) (r : CreateResult) : (w.openFile r).content = w.content := by
  cases r with
  | failed e => exact (content_of_no_stream h).trans (content_of_no_stream h).symm
  | created n e =>
    rw [content_of_no_stream h]
    exact (content_of_stream rfl).trans (List.append_nil _)

@[simp] theorem createFile_content (r : CreateResult) : (w.createFile r).content = w.content := by
  unfold FileWritter.createFile
  split
  · cases h : w.stream with
    | none => simp [FileWritter.content, FileWritter.files, h]
    | some f => simp [FileWritter.content, FileWritter.files, h]
  · rw [openFile_content closeStream_stream, closeStream_content]
    rfl

@[simp] theorem openFile_spilled (r : CreateResult) : (w.openFile r).spilled = w.spilled := by
  cases r <;> rfl

@[simp] theorem createFile_spilled (r : CreateResult) : (w.createFile r).spilled = w.spilled := by
  unfold FileWritter.createFile
  split <;> simp

@[simp] theorem rotateIfNeed_content (n : Nat) (r : CreateResult) : (w.rotateIfNeed n r).content = w.content := by
  unfold FileWritter.rotateIfNeed FileWritter.rotate
  split_ifs <;> simp

@[simp] theorem rotateIfNeed_spilled (n : Nat) (r : CreateResult) : (w.rotateIfNeed n r).spilled = w.spilled := by
  unfold FileWritter.rotateIfNeed FileWritter.rotate
  split_ifs <;> simp

@[simp] theorem ensure_content (r : CreateResult) : (w.ensure r).content = w.content := by
  unfold FileWritter.ensure
  split <;> simp

@[simp] theorem ensure_spilled (r : CreateResult) : (w.ensure r).spilled = w.spilled := by
  unfold FileWritter.ensure
  split <;> simp

@[simp] theorem flush_content (e : Errno) : (w.flush e).content = w.content := by
  unfold FileWritter.flush
  split
  · rfl
  · rename_i f hf
    rw [content_of_stream hf, content_of_stream rfl]
    split <;> rfl

@[simp] theorem flush_spilled (e : Errno) : (w.flush e).spilled = w.spilled := by
  unfold FileWritter.flush
  split <;> rfl

/-- What an `fwrite` that is reached puts into the files, whatever `write` returns. -/
theorem write_content (l : Line) (cr : CreateResult) (r : FwriteResult) :
    (w.write l cr r).1.content = w.content ++ if w.puts l cr r then r.frags l else [] := by
  unfold FileWritter.write FileWritter.puts
  cases hs : (w.ensure cr).stream with
  | none => simp [hs]
  | some f =>
    have hc : w.content = (w.ensure cr).closed.flatMap LogFile.body ++ f.body := by
      rw [← content_of_stream hs, ensure_content]
    have key : (if !(r.frags l).isEmpty then r.frags l else []) = r.frags l := by
      cases h : r.frags l <;> rfl
    simp only [hs, Option.isSome_some, Bool.true_and, key]
    split_ifs <;> rw [content_of_stream rfl, hc, List.append_assoc]

/-- `write` returns true only for a whole `fwrite`, and it counts that one. -/
theorem write_true {l : Line} {cr : CreateResult} {r : FwriteResult} (h : (w.write l cr r).2 = true) :
    r = .ok ∧ w.puts l cr r = true ∧ (w.write l cr r).1.spilled = w.spilled ∧
      (w.write l cr r).1.content = w.content ++ [whole l] := by
  have hw := write_content (w := w) l cr r
  cases hs : (w.ensure cr).stream with
  | none => simp [FileWritter.write, hs] at h
  | some f =>
    cases r with
    | enospc n => simp [FileWritter.write, hs, FwriteResult.errno] at h
    | ok =>
      have hp : w.puts l cr .ok = true := by simp [FileWritter.puts, hs, FwriteResult.frags]
      refine ⟨rfl, hp, ?_, by rw [hw, if_pos hp]; rfl⟩
      simp only [FileWritter.write, hs] at h ⊢
      split_ifs at h ⊢
      exact ensure_spilled cr

/-- When `write` returns false, `spilled` remembers that something was put into the file. -/
theorem write_false {l : Line} {cr : CreateResult} {r : FwriteResult} (h : (w.write l cr r).2 = false) :
    (w.write l cr r).1.spilled = (w.spilled || w.puts l cr r) := by
  unfold FileWritter.write FileWritter.puts at *
  cases hs : (w.ensure cr).stream with
  | none => simp [hs]
  | some f =>
    simp only [hs] at h ⊢
    split_ifs at h ⊢
    simp

end Content

end BeanRaft.Logger
