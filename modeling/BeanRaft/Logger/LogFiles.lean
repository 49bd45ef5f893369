import BeanRaft.Lib.Stream
import BeanRaft.Logger.Format

/-!
# BeanRaft.Logger.LogFiles — the log files on a disk

The class `FileWritter` of `logger.cpp` again, now with the names and the contents of its files: a name has the second of
the creation and the pid, the file must not exist yet (`O_EXCL`), and `<filename>.log` is made a link to the newest one.
An `fwrite` goes to the buffer of the stream; what of the buffer gets to the file, at an `fwrite`, `fflush` or `fclose`, is
decided by the environment (`Transfer`); no result of these calls is looked at.  A full disk is the only error of `fwrite`
(`FwriteResult`).

* `LogFiles`: the members with the disk.  `Creation`: the environment's part of `_createFile`.
* `openFile_created`, `openFile_failed`: the two ends of `_createFile`.  `drain_file`: what a write of the buffer does.
* `name_inj`: a name is that of one second.  `after_lost`: when the calls of a run lose nothing.
-/

namespace BeanRaft.Logger

open Lib

abbrev Path := List UInt8

/-- What is at a path: a file with its bytes, or a link. -/
inductive Node
  | file (bytes : List UInt8)
  | link (target : Path)
  deriving DecidableEq, Repr

/-- What is on the disk, by path. -/
abbrev Disk := Path → Option Node

def Disk.set (disk : Disk) (p : Path) (n : Option Node) : Disk := Function.update disk p n

inductive Out
  | stdout
  | file (path : Path)
  deriving DecidableEq, Repr

/-- The environment's part of `_createFile`: the time, whether `open`, `fdopen`, `unlink` and `symlink` succeed where the
disk lets them, what `fclose` writes of the old buffer and `fflush` of the header, the name of the host, and the `errno` at
the end. -/
structure Creation where
  tm_time : Tm
  opens : Bool
  fdopens : Bool
  unlinks : Bool
  symlinks : Bool
  closing : Transfer
  header : Transfer
  hostname : List UInt8
  errno : Errno
  deriving DecidableEq, Repr

/-- `YYYYmmdd-HHMMSS` -/
def Tm.stamp (t : Tm) : List UInt8 :=
  decimal (t.tm_year + 1900) ++ zeroPad 2 (t.tm_mon + 1) ++ zeroPad 2 t.tm_mday ++ ascii "-" ++ zeroPad 2 t.tm_hour ++
    zeroPad 2 t.tm_min ++ zeroPad 2 t.tm_sec

/-- `file_header_string` (lines 242-257). -/
@[irreducible] def Tm.headerText (t : Tm) (hostname : List UInt8) : List UInt8 :=
  ascii "Log file created at: " ++ decimal (t.tm_year + 1900) ++ ascii "/" ++ zeroPad 2 (t.tm_mon + 1) ++ ascii "/" ++
    zeroPad 2 t.tm_mday ++ ascii " " ++ zeroPad 2 t.tm_hour ++ ascii ":" ++ zeroPad 2 t.tm_min ++ ascii ":" ++
    zeroPad 2 t.tm_sec ++ ascii "\nRunning on machine: " ++ hostname ++
    ascii "\nLog line format: yy-mm-dd hh:mm:ss.uuuuuu [DIWEF] file:line [file:line thread_role] msg\n"

/-- The bytes of a line. -/
def Line.bytes : Line → List UInt8
  | record e => e.text.map fun c => UInt8.ofNat c.toNat
  | report text => text.map fun c => UInt8.ofNat c.toNat

def Frag.bytes (f : Frag) : List UInt8 := f.line.bytes.take f.put

/-- How much of a line an `fwrite` takes. -/
def FwriteResult.put (l : Line) : FwriteResult → Nat
  | ok => l.len
  | enospc n => n

/-- The members of a `FileWritter` with the buffer of its stream, what is on the disk and was printed.  The rest is history:
`created` are the files of the run, `leftover` those that `fdopen` refused and `unlink` did not delete, and `lost` is true
when bytes of a buffer never got to its file. -/
structure LogFiles where
  filename : Path
  pid : Nat
  file_size : Nat
  stream : Option Out
  errno : Errno
  buffer : List UInt8
  disk : Disk
  stdout : List UInt8
  created : List Tm
  leftover : List Tm
  lost : Bool

namespace LogFiles

variable (s : LogFiles)

def symlinkname : Path := s.filename ++ ascii ".log"

/-- `new_filename` (lines 205-217). -/
def name (t : Tm) : Path := s.filename ++ ascii "." ++ t.stamp ++ ascii "." ++ numeral s.pid

/-- The old link is deleted and a new one is made (lines 237-238); `symlink` fails when there is something at its path. -/
def relink (c : Creation) (disk : Disk) : Disk :=
  let disk := if c.unlinks then disk.set s.symlinkname none else disk
  if c.symlinks ∧ disk s.symlinkname = none then disk.set s.symlinkname (some (.link (constBasename (s.name c.tm_time))))
  else disk

/-- Bytes are appended to a file, or printed. -/
def put (out : Out) (bs : List UInt8) : LogFiles :=
  match out with
  | .stdout => { s with stdout := s.stdout ++ bs }
  | .file path =>
    match s.disk path with
    | some (.file old) => { s with disk := s.disk.set path (some (.file (old ++ bs))) }
    | _ => s

/-- The buffer of the stream is written. -/
def drain (out : Out) (t : Transfer) : LogFiles :=
  { s.put out (t.taken s.buffer) with buffer := t.left s.buffer, lost := s.lost || t.loses s.buffer }

/-- The block `if (stream) { fclose(stream); fd = -1; stream = NULL; }` of `rotate` and `_createFile`. -/
def closeStream (t : Transfer) : LogFiles :=
  match s.stream with
  | none => s
  | some out => { s.drain out t.last with stream := none }

/-- The rest of `_createFile` once the old stream is closed (lines 200-262). -/
def openFile (c : Creation) : LogFiles :=
  let path := s.name c.tm_time
  if ¬ c.opens ∨ (s.disk path).isSome then { s with errno := c.errno }
  else
    let disk := s.disk.set path (some (.file []))
    if ¬ c.fdopens then
      -- the result of `unlink` (line 229) is not looked at
      if c.unlinks then { s with disk := disk.set path none, errno := c.errno }
      else { s with disk := disk, leftover := s.leftover ++ [c.tm_time], errno := c.errno }
    else
      let text := c.tm_time.headerText c.hostname
      let s := { s with
        disk := s.relink c disk
        stream := some (.file path)
        buffer := text
        file_size := text.length
        errno := c.errno
        created := s.created ++ [c.tm_time] }
      s.drain (.file path) c.header

/-- `_createFile` (line 189). -/
def createFile (c : Creation) : LogFiles :=
  if s.filename = [] then { s with file_size := 0, stream := some .stdout }
  else ({ s with file_size := 0 }.closeStream c.closing).openFile c

/-- The members before the constructor creates a file. -/
def begin (filename : Path) (pid : Nat) (disk : Disk) : LogFiles :=
  ⟨filename, pid, 0, none, 0, [], disk, [], [], [], false⟩

/-- The constructor (line 117). -/
def new (filename : Path) (pid : Nat) (disk : Disk) (c : Creation) : LogFiles :=
  { (begin filename pid disk).createFile c with errno := 0 }

def ensure (c : Creation) : LogFiles := if s.stream.isNone then s.createFile c else s

/-- `write` (line 133); `t` is what its `fwrite` does with the buffer. -/
def write (l : Line) (c : Creation) (r : FwriteResult) (t : Transfer) : LogFiles × Bool :=
  let s := s.ensure c
  match s.stream with
  | none => (s, false)
  | some out =>
    let s := { { s with buffer := s.buffer ++ l.bytes.take (r.put l) }.drain out t with errno := r.errno s.errno }
    if s.errno = ENOSPC then (s, false) else ({ s with file_size := s.file_size + l.len }, true)

/-- `flush` (line 162); the result of its `fflush` is not looked at. -/
def flush (e : Errno) (t : Transfer) : LogFiles :=
  match s.stream with
  | none => s
  | some out => { s.drain out t with errno := e }

/-- `rotate` (line 169). -/
def rotate (c : Creation) : LogFiles := if s.filename = [] then s else (s.closeStream c.closing).createFile c

/-- The rotation check of the batch loop of asyncRun (lines 462-465). -/
def rotateIfNeed (max_file_size : Nat) (c : Creation) : LogFiles :=
  if s.file_size > max_file_size then s.rotate c else s

/-- A creation succeeds. -/
def Creates (c : Creation) : Prop := c.opens ∧ c.fdopens ∧ s.disk (s.name c.tm_time) = none

instance (c : Creation) : Decidable (s.Creates c) := by unfold Creates; infer_instance

/-- What a creation is to the class without the disk. -/
def result (c : Creation) : CreateResult :=
  if s.Creates c then .created (c.tm_time.headerText c.hostname).length c.errno else .failed c.errno

end LogFiles

/-! ## Runs -/

/-- A call of asyncRun, with the environment's part of a creation in it. -/
inductive FileCall (κ : Type)
  | write (l : Line) (c : κ) (r : FwriteResult) (t : Transfer)
  | flush (e : Errno) (t : Transfer)
  | rotateIfNeed (max_file_size : Nat) (c : κ)
  deriving DecidableEq, Repr

def FileCall.map {κ κ' : Type} (f : κ → κ') : FileCall κ → FileCall κ'
  | write l c r t => .write l (f c) r t
  | flush e t => .flush e t
  | rotateIfNeed max_file_size c => .rotateIfNeed max_file_size (f c)

/-- A call, and the value returned when it has one. -/
def LogFiles.call (s : LogFiles) : FileCall Creation → LogFiles × Bool
  | .write l c r t => s.write l c r t
  | .flush e t => (s.flush e t, true)
  | .rotateIfNeed max_file_size c => (s.rotateIfNeed max_file_size c, true)

/-- Without the disk there is no buffer either. -/
def FileWritter.call (w : FileWritter) : FileCall CreateResult → FileWritter × Bool
  | .write l c r _ => w.write l c r
  | .flush e _ => (w.flush e, true)
  | .rotateIfNeed max_file_size c => (w.rotateIfNeed max_file_size c, true)

/-- The state after some calls. -/
def LogFiles.after (s : LogFiles) (calls : List (FileCall Creation)) : LogFiles := calls.foldl (fun s a => (s.call a).1) s

/-- The header gets to the file, and the buffer of the old stream. -/
def Creation.Lossless (c : Creation) : Prop := c.closing = .whole ∧ c.header = .whole

/-- `fwrite` drops nothing, `fflush` and `fclose` write everything. -/
def FileCall.Lossless : FileCall Creation → Prop
  | write _ c _ t => c.Lossless ∧ t.Keeps
  | flush _ t => t = .whole
  | rotateIfNeed _ c => c.Lossless

/-- The calls on the disk, and the same calls without it; the values that each returned. -/
def runBoth (s : LogFiles) (w : FileWritter) : List (FileCall Creation) → (LogFiles × List Bool) × (FileWritter × List Bool)
  | [] => ((s, []), (w, []))
  | a :: calls =>
    let r := s.call a
    let q := w.call (a.map s.result)
    let rest := runBoth r.1 q.1 calls
    ((rest.1.1, r.2 :: rest.1.2), (rest.2.1, q.2 :: rest.2.2))

/-! ## Names -/

section Names

variable {t t' : Tm} {s : LogFiles}

theorem zeroPad_two (n : Nat) (h : n < 100) : (zeroPad 2 n).length = 2 := zeroPad_length (by decide) h

theorem stamp_lengths (t : Tm) : (zeroPad 2 (t.tm_mon + 1)).length = 2 ∧ (zeroPad 2 t.tm_mday).length = 2 ∧
    (zeroPad 2 t.tm_hour).length = 2 ∧ (zeroPad 2 t.tm_min).length = 2 ∧ (zeroPad 2 t.tm_sec).length = 2 := by
  have hmon := t.mon_le
  have hmday := t.mday_le
  have hhour := t.hour_le
  have hmin := t.min_le
  have hsec := t.sec_le
  refine ⟨zeroPad_two _ ?_, zeroPad_two _ ?_, zeroPad_two _ ?_, zeroPad_two _ ?_, zeroPad_two _ ?_⟩ <;> omega

/-- A stamp is the stamp of one second only: all its parts but the year have two digits. -/
theorem stamp_inj (h : t.stamp = t'.stamp) : t = t' := by
  obtain ⟨hmon, hmday, hhour, hmin, hsec⟩ := stamp_lengths t
  obtain ⟨hmon', hmday', hhour', hmin', hsec'⟩ := stamp_lengths t'
  unfold Tm.stamp at h
  obtain ⟨h, esec⟩ := List.append_inj' h (by rw [hsec, hsec'])
  obtain ⟨h, emin⟩ := List.append_inj' h (by rw [hmin, hmin'])
  obtain ⟨h, ehour⟩ := List.append_inj' h (by rw [hhour, hhour'])
  obtain ⟨h, -⟩ := List.append_inj' h rfl
  obtain ⟨h, emday⟩ := List.append_inj' h (by rw [hmday, hmday'])
  obtain ⟨h, emon⟩ := List.append_inj' h (by rw [hmon, hmon'])
  have eyear := congrArg ofDecimal h
  rw [ofDecimal_decimal, ofDecimal_decimal] at eyear
  have hyear := Option.some.inj eyear
  have hmonth := zeroPad_inj emon
  cases t
  cases t'
  simp only [Tm.mk.injEq]
  exact ⟨by simpa using hyear, by simpa using hmonth, zeroPad_inj emday, zeroPad_inj ehour, zeroPad_inj emin,
    zeroPad_inj esec⟩

theorem name_inj (h : s.name t = s.name t') : t = t' := by
  unfold LogFiles.name at h
  have h1 := List.append_cancel_right (List.append_cancel_right h)
  rw [List.append_assoc, List.append_assoc] at h1
  exact stamp_inj (List.append_cancel_left (List.append_cancel_left h1))

/-- The name of a log file is longer than that of the link. -/
theorem name_ne_symlinkname (t : Tm) : s.name t ≠ s.symlinkname := by
  intro h
  obtain ⟨hmon, hmday, hhour, hmin, hsec⟩ := stamp_lengths t
  have hlen := congrArg List.length h
  have hlog : (ascii ".log").length = 4 := rfl
  have hdot : (ascii ".").length = 1 := rfl
  have hdash : (ascii "-").length = 1 := rfl
  unfold LogFiles.name LogFiles.symlinkname Tm.stamp at hlen
  simp only [List.length_append, hmon, hmday, hhour, hmin, hsec, hlog, hdot, hdash] at hlen
  omega

end Names

/-! ## What the operations do -/

section Operations

variable {s : LogFiles} {c : Creation}

@[simp] theorem Disk.set_self (disk : Disk) (p : Path) (n : Option Node) : disk.set p n p = n := Function.update_self ..

@[simp] theorem Disk.set_of_ne {p q : Path} (h : q ≠ p) (disk : Disk) (n : Option Node) : disk.set p n q = disk q :=
  Function.update_of_ne h ..

/-- A path that is set twice. -/
@[simp] theorem Disk.set_set (disk : Disk) (p : Path) (n m : Option Node) : (disk.set p n).set p m = disk.set p m :=
  Function.update_idem ..

/-- A file that is deleted again. -/
theorem Disk.set_none {disk : Disk} {p : Path} (h : disk p = none) : disk.set p none = disk := by
  unfold Disk.set
  rw [Function.update_eq_self_iff.mpr h.symm]

@[simp] theorem put_stream (out : Out) (bs : List UInt8) : (s.put out bs).stream = s.stream := by
  unfold LogFiles.put
  split
  · rfl
  · split <;> rfl

@[simp] theorem put_name (out : Out) (bs : List UInt8) (t : Tm) : (s.put out bs).name t = s.name t := by
  unfold LogFiles.put
  split
  · rfl
  · split <;> rfl

@[simp] theorem put_filename (out : Out) (bs : List UInt8) : (s.put out bs).filename = s.filename := by
  unfold LogFiles.put
  split
  · rfl
  · split <;> rfl

@[simp] theorem drain_filename (out : Out) (tr : Transfer) : (s.drain out tr).filename = s.filename := put_filename _ _

/-- Closing the stream frees no path. -/
theorem put_eq_none {out : Out} {bs : List UInt8} {p : Path} : (s.put out bs).disk p = none ↔ s.disk p = none := by
  unfold LogFiles.put
  split
  · rfl
  · rename_i path
    split
    · rename_i old hold
      show Disk.set _ _ _ p = none ↔ _
      by_cases hp : p = path
      · rw [hp, Disk.set_self, hold]
        simp
      · rw [Disk.set_of_ne hp]
    · rfl

/-- The buffer of a stream whose file is on the disk. -/
theorem drain_file {path : Path} {bytes : List UInt8} (h : s.disk path = some (.file bytes)) (tr : Transfer) :
    s.drain (.file path) tr = { s with
      disk := s.disk.set path (some (.file (bytes ++ tr.taken s.buffer)))
      buffer := tr.left s.buffer
      lost := s.lost || tr.loses s.buffer } := by
  unfold LogFiles.drain LogFiles.put
  simp only [h]

@[simp] theorem closed_filename (tr : Transfer) : (s.closeStream tr).filename = s.filename := by
  unfold LogFiles.closeStream LogFiles.drain
  split <;> simp

theorem closed_stream (tr : Transfer) : (s.closeStream tr).stream = none := by
  unfold LogFiles.closeStream
  split
  · assumption
  · rfl

theorem files_closeStream (hs : s.stream = none) (tr : Transfer) : s.closeStream tr = s := by
  unfold LogFiles.closeStream
  rw [hs]

theorem closeStream_creates (tr : Transfer) (c : Creation) : (s.closeStream tr).Creates c ↔ s.Creates c := by
  unfold LogFiles.closeStream
  split
  · rfl
  · rename_i out _
    show _ ∧ _ ∧ (s.put out _).disk ((s.put out _).name c.tm_time) = none ↔ _
    rw [put_name, put_eq_none]
    rfl

theorem closeStream_result (tr : Transfer) (c : Creation) : (s.closeStream tr).result c = s.result c := by
  unfold LogFiles.result
  simp only [closeStream_creates]

/-- The link is another path than those of the files. -/
theorem relink_of_ne {disk : Disk} {p : Path} (hp : p ≠ s.symlinkname) :
    s.relink c disk p = disk p := by
  unfold LogFiles.relink
  split_ifs <;> simp [hp]

/-- The new file, with what got to it of its header. -/
theorem openFile_created (hc : s.Creates c) : s.openFile c =
    { s with
      disk := (s.relink c (s.disk.set (s.name c.tm_time) (some (.file [])))).set (s.name c.tm_time)
        (some (.file (c.header.taken (c.tm_time.headerText c.hostname))))
      stream := some (.file (s.name c.tm_time))
      file_size := (c.tm_time.headerText c.hostname).length
      errno := c.errno
      buffer := c.header.left (c.tm_time.headerText c.hostname)
      created := s.created ++ [c.tm_time]
      lost := s.lost || c.header.loses (c.tm_time.headerText c.hostname) } := by
  obtain ⟨hopens, hfdopens, hfree⟩ := hc
  have hempty : s.relink c (s.disk.set (s.name c.tm_time) (some (.file []))) (s.name c.tm_time) = some (.file []) := by
    rw [relink_of_ne (name_ne_symlinkname _), Disk.set_self]
  have hopen : ¬ (¬ c.opens ∨ (s.disk (s.name c.tm_time)).isSome) := by
    rw [hfree]
    simp [hopens]
  unfold LogFiles.openFile
  rw [if_neg hopen, if_neg (not_not.mpr hfdopens)]
  dsimp only
  rw [drain_file hempty, List.nil_append]

/-- A creation that fails leaves no file, or an empty one. -/
theorem openFile_failed (hc : ¬ s.Creates c) : s.openFile c = { s with errno := c.errno } ∨
    s.disk (s.name c.tm_time) = none ∧ ¬ c.unlinks ∧ s.openFile c = { s with
      disk := s.disk.set (s.name c.tm_time) (some (.file []))
      errno := c.errno
      leftover := s.leftover ++ [c.tm_time] } := by
  unfold LogFiles.openFile
  dsimp only
  by_cases hopen : ¬ c.opens ∨ (s.disk (s.name c.tm_time)).isSome
  · rw [if_pos hopen]
    exact .inl rfl
  · have hfree : s.disk (s.name c.tm_time) = none := by simpa using (not_or.mp hopen).2
    have hfdopens : ¬ c.fdopens := fun hfdopens => hc ⟨by simpa using (not_or.mp hopen).1, hfdopens, hfree⟩
    rw [if_neg hopen, if_pos hfdopens]
    by_cases hunlinks : c.unlinks
    · rw [if_pos hunlinks, Disk.set_set, Disk.set_none hfree]
      exact .inl rfl
    · rw [if_neg hunlinks]
      exact .inr ⟨hfree, hunlinks, rfl⟩

theorem openFile_stream (hs : s.stream = none) (c : Creation) : (s.openFile c).stream ≠ none ↔ s.Creates c := by
  by_cases hc : s.Creates c
  · rw [openFile_created hc]
    simp [hc]
  · rcases openFile_failed hc with hopen | ⟨-, -, hopen⟩ <;> rw [hopen] <;> simp [hc, hs]

@[simp] theorem openFile_filename (c : Creation) : (s.openFile c).filename = s.filename := by
  by_cases hc : s.Creates c
  · rw [openFile_created hc]
  · rcases openFile_failed hc with hopen | ⟨-, -, hopen⟩ <;> rw [hopen]

@[simp] theorem createFile_filename (c : Creation) : (s.createFile c).filename = s.filename := by
  unfold LogFiles.createFile
  split_ifs <;> simp

/-- A rotation that is not refused by the file name. -/
theorem rotate_stream (hname : s.filename ≠ []) (c : Creation) : (s.rotate c).stream ≠ none ↔ s.Creates c := by
  have hcreates : ({ s.closeStream c.closing with file_size := 0 } : LogFiles).Creates c ↔ s.Creates c :=
    closeStream_creates c.closing c
  have hnone : ({ s.closeStream c.closing with file_size := 0 } : LogFiles).stream = none := closed_stream _
  unfold LogFiles.rotate LogFiles.createFile
  rw [if_neg hname, if_neg (by simpa using hname), files_closeStream hnone, openFile_stream hnone]
  exact hcreates

@[simp] theorem call_filename (a : FileCall Creation) : (s.call a).1.filename = s.filename := by
  have hensure : ∀ c, (s.ensure c).filename = s.filename := by
    intro c
    unfold LogFiles.ensure
    split_ifs <;> simp
  cases a with
  | write l c r tr =>
    show (s.write l c r tr).1.filename = _
    unfold LogFiles.write
    dsimp only
    split
    · exact hensure c
    · split_ifs <;> simp [hensure]
  | flush e tr =>
    show (s.flush e tr).filename = _
    unfold LogFiles.flush
    split <;> simp
  | rotateIfNeed max_file_size c =>
    show (s.rotateIfNeed max_file_size c).filename = _
    unfold LogFiles.rotateIfNeed LogFiles.rotate
    split_ifs <;> simp

theorem after_filename (s : LogFiles) (calls : List (FileCall Creation)) : (s.after calls).filename = s.filename := by
  induction calls generalizing s with
  | nil => rfl
  | cons a calls ih => exact (ih _).trans (call_filename a)

/-! Nothing is lost. -/

theorem drain_lost (out : Out) {tr : Transfer} (h : tr.Keeps) (hs : s.lost = false) : (s.drain out tr).lost = false := by
  show (s.lost || tr.loses s.buffer) = false
  rw [hs, Transfer.loses_of_keeps _ h]
  rfl

theorem closeStream_lost (hs : s.lost = false) : (s.closeStream .whole).lost = false := by
  unfold LogFiles.closeStream
  split
  · exact hs
  · rename_i out _
    exact drain_lost out Transfer.keeps_whole hs

theorem openFile_lost (h : c.header = .whole) (hs : s.lost = false) : (s.openFile c).lost = false := by
  by_cases hc : s.Creates c
  · rw [openFile_created hc]
    show (s.lost || c.header.loses _) = false
    rw [hs, h, Transfer.loses_of_keeps _ Transfer.keeps_whole]
    rfl
  · rcases openFile_failed hc with hopen | ⟨-, -, hopen⟩ <;> rw [hopen] <;> exact hs

theorem openFile_buffer (h : c.header = .whole) (hs : s.buffer = []) : (s.openFile c).buffer = [] := by
  by_cases hc : s.Creates c
  · rw [openFile_created hc]
    show c.header.left _ = []
    rw [h]
    rfl
  · rcases openFile_failed hc with hopen | ⟨-, -, hopen⟩ <;> rw [hopen] <;> exact hs

/-- The constructor has no stream to close. -/
theorem new_whole (h : c.header = .whole) (filename : Path) (pid : Nat) (disk : Disk) :
    (LogFiles.new filename pid disk c).lost = false ∧ (LogFiles.new filename pid disk c).buffer = [] := by
  unfold LogFiles.new LogFiles.createFile
  split_ifs
  · exact ⟨rfl, rfl⟩
  · rw [files_closeStream rfl]
    exact ⟨openFile_lost h rfl, openFile_buffer h rfl⟩

theorem createFile_lost (h : c.Lossless) (hs : s.lost = false) : (s.createFile c).lost = false := by
  unfold LogFiles.createFile
  split_ifs
  · exact hs
  · rw [h.1]
    exact openFile_lost h.2 (closeStream_lost hs)

theorem call_lost {a : FileCall Creation} (h : a.Lossless) (hs : s.lost = false) : (s.call a).1.lost = false := by
  cases a with
  | write l c r tr =>
    obtain ⟨hc, hkeeps⟩ := h
    have hensure : (s.ensure c).lost = false := by
      unfold LogFiles.ensure
      split_ifs
      · exact createFile_lost hc hs
      · exact hs
    show (s.write l c r tr).1.lost = false
    unfold LogFiles.write
    dsimp only
    split
    · exact hensure
    · rename_i out _
      split_ifs <;> exact drain_lost out hkeeps hensure
  | flush e tr =>
    obtain rfl : tr = .whole := h
    show (s.flush e .whole).lost = false
    unfold LogFiles.flush
    split
    · exact hs
    · rename_i out _
      exact drain_lost out Transfer.keeps_whole hs
  | rotateIfNeed max_file_size c =>
    have hc : c.Lossless := h
    show (s.rotateIfNeed max_file_size c).lost = false
    unfold LogFiles.rotateIfNeed LogFiles.rotate
    rw [hc.1]
    split_ifs
    · exact hs
    · exact createFile_lost hc (closeStream_lost hs)
    · exact hs

theorem after_lost {calls : List (FileCall Creation)} (h : ∀ a ∈ calls, a.Lossless) (hs : s.lost = false) :
    (s.after calls).lost = false := by
  induction calls generalizing s with
  | nil => exact hs
  | cons a calls ih =>
    refine ih (fun b hb => h b (by simp [hb])) ?_
    exact call_lost (h a (by simp)) hs

end Operations

end BeanRaft.Logger
