import BeanRaft.Logger.LogLink
import BeanRaft.Logger.Order

/-!
# BeanRaft.Logger.DiskLogger — the whole logger with its files on a disk

`LogWritter` with `LogFiles` behind it: any number of threads that log, the async thread, and the bytes that are read from
the disk afterwards.  `file_writer` is the writer without a disk, and both run side by side.

* `DiskAct`: the actions of the logger; those that call the writer carry the environment's part of the creations.
* `DiskLogger.calls`: the calls of the writer in one action.  `sim_diskStep`: one step keeps `Sim`.
* `Logged`: what is in the files and what is still queued are the pushed records; between two batches nothing is left in
  the buffer of the stream.
* `logged_always`: it holds in every state of a run that does not put a record into the files again and in which every
  write of the buffer succeeds.
-/

namespace BeanRaft.Logger

open Lib Lts

structure DiskLogger where
  log : LogWritter
  files : LogFiles

inductive DiskAct
  | act (a : Act)
  | writeEntry (rot cr : Creation) (fw : FwriteResult) (t : Transfer)
  | flush (cr : Creation) (fw : FwriteResult) (t : Transfer) (errno : Errno) (t' : Transfer)
  deriving DecidableEq, Repr

/-- The action calls the file writer. -/
def Act.callsFile : Act → Bool
  | writeEntry _ _ _ => true
  | flush _ _ _ => true
  | _ => false

namespace DiskLogger

variable (s : DiskLogger)

/-- The calls of the file writer: one turn of the batch loop (lines 462-468), or the end of a batch (lines 475-479). -/
def calls : DiskAct → List (FileCall Creation)
  | .act _ => []
  | .writeEntry rot cr fw t =>
    match s.log.async.rest with
    | [] => []
    | e :: _ => [.rotateIfNeed s.log.max_file_size rot, .write (.record e) cr fw t]
  | .flush cr fw t errno t' =>
    if s.log.misslog_len > 0 then
      [.write (.report (s.log.misslog_buf.take s.log.misslog_len)) cr fw t, .flush errno t']
    else [.flush errno t']

/-- The action as the logger without the disk sees it: each creation is decided by the disk. -/
def logAct : DiskAct → Act
  | .act a => a
  | .writeEntry rot cr fw _ =>
    .writeEntry (s.files.result rot) ((s.files.rotateIfNeed s.log.max_file_size rot).result cr) fw
  | .flush cr fw _ errno _ => .flush (s.files.result cr) fw errno

/-- An action that calls the file writer carries its creations. -/
def Complete : DiskAct → Prop
  | .act a => a.callsFile = false
  | _ => True

instance : ∀ a, Decidable (Complete a)
  | .act a => inferInstanceAs (Decidable (a.callsFile = false))
  | .writeEntry _ _ _ _ | .flush _ _ _ _ _ => isTrue trivial

def step (a : DiskAct) : Option DiskLogger :=
  if Complete a then (s.log.step (s.logAct a)).map fun log => ⟨log, s.files.after (s.calls a)⟩ else none

def new (name : String) (pid : Nat) (disk : Disk) (c : Creation) (max_file_size : Nat) : DiskLogger :=
  ⟨.new name ((LogFiles.begin (ascii name) pid disk).result c) max_file_size, .new (ascii name) pid disk c⟩

end DiskLogger

/-- The logger on a disk that is empty or not. -/
def diskLogger (disk : Disk) : System DiskLogger DiskAct where
  init s := ∃ name pid c max_file_size, s = .new name pid disk c max_file_size
  step := DiskLogger.step

def recordBytes (es : List Entry) : List UInt8 := es.flatMap fun e => (Line.record e).bytes

/-- asyncRun is neither in a batch nor before its `flush`. -/
def AsyncPc.flushed : AsyncPc → Bool
  | batch _ => false
  | flushing _ => false
  | _ => true

/-- What was pushed is in the files or still queued: the log files of the run have a header each, and their bodies, in the
order of their creation, are the bytes of the records that have left the queue; behind them is at most the beginning of the
next record.  What is in the buffer of the last file counts, but between two batches there is nothing in it. -/
def Logged (s : DiskLogger) : Prop :=
  ∃ (parts : List (List UInt8 × List UInt8)) (done : List Entry) (tail : List UInt8),
    List.Forall₂ (fun t part => s.files.held t = some (t.headerText part.1 ++ part.2)) s.files.created parts ∧
    s.log.pushed = done ++ (s.log.async.rest ++ s.log.memtable) ∧
    parts.flatMap Prod.snd = recordBytes done ++ tail ∧
    tail <+: recordBytes ((s.log.async.rest ++ s.log.memtable).take 1) ∧
    (s.log.async.flushed → s.files.buffer = [])

/-- No record is put into the files after an `fwrite` that put something and was answered by false. -/
def WritesOnce (s : DiskLogger) (a : DiskAct) : Prop := RewriteFree s.log (s.logAct a)

/-- No byte is lost on its way from the buffer of a stream to its file. -/
def LosesNothing (s : DiskLogger) (a : DiskAct) : Prop := ∀ call ∈ s.calls a, call.Lossless

section Steps

variable {disk : Disk} {s s' : DiskLogger} {a : DiskAct} {files : LogFiles} {w : FileWritter}

theorem losesNothing_act {b : Act} : LosesNothing s (.act b) := fun _ h => nomatch h

theorem losesNothing_writeEntry {rot cr : Creation} {fw : FwriteResult} {t : Transfer} (hrot : rot.Lossless)
    (hcr : cr.Lossless) (ht : t.Keeps) : LosesNothing s (.writeEntry rot cr fw t) := by
  intro call hcall
  dsimp only [DiskLogger.calls] at hcall
  split at hcall
  · cases hcall
  · rcases List.mem_cons.mp hcall with rfl | hcall
    · exact hrot
    · rw [List.mem_singleton.mp hcall]
      exact ⟨hcr, ht⟩

theorem losesNothing_flush {cr : Creation} {fw : FwriteResult} {t : Transfer} {errno : Errno} (hcr : cr.Lossless)
    (ht : t.Keeps) : LosesNothing s (.flush cr fw t errno .whole) := by
  intro call hcall
  dsimp only [DiskLogger.calls] at hcall
  split_ifs at hcall
  · rcases List.mem_cons.mp hcall with rfl | hcall
    · exact ⟨hcr, ht⟩
    · rw [List.mem_singleton.mp hcall]
      rfl
  · rw [List.mem_singleton.mp hcall]
    rfl

theorem diskStep_cases (h : s.step a = some s') :
    DiskLogger.Complete a ∧ s.log.step (s.logAct a) = some s'.log ∧ s'.files = s.files.after (s.calls a) := by
  unfold DiskLogger.step at h
  split_ifs at h with hc
  obtain ⟨log, hlog, rfl⟩ := Option.map_eq_some_iff.mp h
  exact ⟨hc, hlog, rfl⟩

/-- The other actions leave the file writer alone. -/
theorem file_writer_of_not_callsFile {log log' : LogWritter} {a : Act} (hr : Reach logger log)
    (ha : a.callsFile = false) (h : log.step a = some log') : log'.file_writer = log.file_writer := by
  have hpipe : log'.file_writer = log'.pipe.file_writer := rfl
  have hstep := step_pipe (misslog_len_eq_zero hr) h
  rw [hpipe]
  generalize log'.pipe = p at hstep
  cases hstep <;> first | rfl | simp [Act.callsFile] at ha

/-- A turn of the batch loop. -/
theorem sim_writeEntry (hsim : Sim disk s.files s.log.file_writer) {rot cr : Creation} {fw : FwriteResult}
    {t : Transfer} (h : s.log.step (s.logAct (.writeEntry rot cr fw t)) = some s'.log) :
    Sim disk (s.files.after (s.calls (.writeEntry rot cr fw t))) s'.log.file_writer := by
  have hrot := hsim.rotateIfNeed s.log.max_file_size rot
  cases step_did h with
  | @writeEntry b _ _ _ _ hpc hw =>
    unfold DiskLogger.calls
    rw [hpc]
    rcases writeEntry_cases hw with ⟨hr, h'⟩ | ⟨e, rest, hr, -, w, hres⟩
    · have hrest : (AsyncPc.batch b).rest = [] := hr
      rw [hrest, h']
      exact hsim
    · have hrest : (AsyncPc.batch b).rest = e :: rest := hr
      have hwrite := (hrot.write (.record e) cr fw t).2
      have hwriter : s'.log.file_writer =
          ((s.log.file_writer.rotateIfNeed s.log.max_file_size (s.files.result rot)).write (.record e)
            ((s.files.rotateIfNeed s.log.max_file_size rot).result cr) fw).1 := by
        rcases hres with ⟨hres, h'⟩ | ⟨hres, h'⟩ <;> rw [h', hres]
      rw [hrest, hwriter]
      exact hwrite

/-- The end of a batch. -/
theorem sim_flush (hsim : Sim disk s.files s.log.file_writer) {cr : Creation} {fw : FwriteResult} {t t' : Transfer}
    {errno : Errno} (h : s.log.step (s.logAct (.flush cr fw t errno t')) = some s'.log) :
    Sim disk (s.files.after (s.calls (.flush cr fw t errno t'))) s'.log.file_writer := by
  have hlog : ∃ b, s'.log = s.log.flush b (s.files.result cr) fw errno := by
    have hdid := step_did h
    generalize s'.log = log' at hdid
    cases hdid with
    | flush hpc => exact ⟨_, rfl⟩
  obtain ⟨b, hlog⟩ := hlog
  rw [hlog]
  unfold DiskLogger.calls LogWritter.flush LogWritter.writeReport
  split_ifs
  · exact ((hsim.write _ cr fw t).2).flush errno t'
  · exact hsim.flush errno t'

/-- **One step of the logger keeps its files on the disk those of its `file_writer`.** -/
theorem sim_diskStep (hr : Reach logger s.log) (hsim : Sim disk s.files s.log.file_writer) (h : s.step a = some s') :
    Sim disk s'.files s'.log.file_writer := by
  obtain ⟨hc, hlog, hfiles⟩ := diskStep_cases h
  rw [hfiles]
  cases a with
  | act a =>
    rw [file_writer_of_not_callsFile hr hc hlog]
    exact hsim
  | writeEntry rot cr fw t => exact sim_writeEntry hsim hlog
  | flush cr fw t errno t' => exact sim_flush hsim hlog

/-- The headers and the bodies of files. -/
theorem parts_of_holds {ts : List Tm} {fs : List LogFile} (h : List.Forall₂ files.Holds ts fs) :
    ∃ parts : List (List UInt8 × List UInt8),
      List.Forall₂ (fun t part => files.held t = some (t.headerText part.1 ++ part.2)) ts parts ∧
      parts.flatMap Prod.snd = (fs.flatMap LogFile.body).flatMap Frag.bytes := by
  induction h with
  | nil => exact ⟨[], .nil, rfl⟩
  | @cons t f ts fs hf _ ih =>
    obtain ⟨hostname, hfile⟩ := hf
    obtain ⟨parts, hparts, hbytes⟩ := ih
    refine ⟨(hostname, f.body.flatMap Frag.bytes) :: parts, .cons hfile hparts, ?_⟩
    rw [List.flatMap_cons, List.flatMap_cons, List.flatMap_append, hbytes]

theorem bytes_wholeRecords (es : List Entry) : (es.map wholeRecord).flatMap Frag.bytes = recordBytes es := by
  unfold recordBytes
  rw [List.flatMap_map]
  congr 1
  funext e
  simp [wholeRecord, whole, Frag.bytes, Line.bytes, Line.len, Entry.message_len]

/-- The bytes of an `Ordered` writer are those of the accepted records, and the beginning of the next one. -/
theorem Ordered.bytes {p : Pipe} (h : Ordered p) :
    ∃ tail, p.file_writer.content.flatMap Frag.bytes = recordBytes (p.pushed.take p.accepted) ++ tail ∧
      tail <+: recordBytes ((p.pushed.drop p.accepted).take 1) := by
  rcases h with ⟨-, hc⟩ | ⟨-, e, n, he, -, hc⟩
  · refine ⟨[], ?_, List.nil_prefix⟩
    rw [hc, bytes_wholeRecords, List.append_nil]
  · refine ⟨(Line.record e).bytes.take n, ?_, ?_⟩
    · rw [hc, List.flatMap_append, bytes_wholeRecords]
      simp [Frag.bytes]
    · have hnext : (p.pushed.drop p.accepted).take 1 = [e] := by
        obtain ⟨hlt, rfl⟩ := List.getElem?_eq_some_iff.mp he
        rw [List.drop_eq_getElem_cons hlt]
        rfl
      rw [hnext]
      unfold recordBytes
      rw [List.flatMap_singleton]
      exact List.take_prefix _ _

/-- What a step keeps that puts no record into the files again and loses nothing. -/
structure DiskLogger.Kept (disk : Disk) (name : String) (s : DiskLogger) : Prop where
  reach : Reach logger s.log
  ordered : Ordered s.log.pipe
  sim : Sim disk s.files s.log.file_writer
  filename : s.files.filename = ascii name
  lost : s.files.lost = false
  buffer : s.log.async.flushed → s.files.buffer = []

theorem DiskLogger.Kept.named {name : String} (h : s.Kept disk name) (hname : name ≠ "") : s.files.filename ≠ [] := by
  rw [h.filename]
  show name.toList.map _ ≠ []
  simpa using hname

theorem DiskLogger.Kept.logged {name : String} (h : s.Kept disk name) (hname : name ≠ "") : Logged s := by
  obtain ⟨parts, hparts, hbytes⟩ := parts_of_holds (h.sim.holds (h.named hname) h.lost)
  obtain ⟨tail, hdone, htail⟩ := h.ordered.bytes
  have hdrop : s.log.pushed.drop s.log.pipe.accepted = s.log.async.rest ++ s.log.memtable :=
    (reach_accounted h.reach).drop_accepted
  refine ⟨parts, s.log.pushed.take s.log.pipe.accepted, tail, hparts, ?_, hbytes.trans hdone, ?_, h.buffer⟩
  · rw [← hdrop, List.take_append_drop]
  · rw [← hdrop]
    exact htail

theorem kept_diskNew (name : String) (pid : Nat) (disk : Disk) (c : Creation) (hc : c.header = .whole)
    (max_file_size : Nat) : (DiskLogger.new name pid disk c max_file_size).Kept disk name := by
  obtain ⟨hlost, hbuffer⟩ := new_whole hc (ascii name) pid disk
  exact ⟨.init ⟨name, _, max_file_size, rfl⟩, ordered_new name _ max_file_size, sim_new name pid disk c,
    createFile_filename c, hlost, fun _ => hbuffer⟩

/-- An action that leaves the file writer alone does not end a batch. -/
theorem flushed_of_not_callsFile {log log' : LogWritter} {a : Act} (hr : Reach logger log) (ha : a.callsFile = false)
    (h : log.step a = some log') (hflushed : log'.async.flushed) : log.async.flushed := by
  have hpipe : log'.async = log'.pipe.async := rfl
  have hstep := step_pipe (misslog_len_eq_zero hr) h
  rw [hpipe] at hflushed
  generalize log'.pipe = p at hstep hflushed
  show log.pipe.async.flushed = true
  cases hstep with
  | stutter | push | resize => exact hflushed
  | lock hpc | park hpc | exit hpc | update b hpc =>
    rw [hpc]
    rfl
  | swap => cases hflushed
  | done | refused | written | flush => simp [Act.callsFile] at ha

/-- asyncRun leaves a batch through a `flush`, after which the buffer is empty. -/
theorem buffer_diskStep {name : String} (h : s.Kept disk name) (hloses : LosesNothing s a) (hs : s.step a = some s') :
    s'.log.async.flushed → s'.files.buffer = [] := by
  obtain ⟨hc, hlog, hfiles⟩ := diskStep_cases hs
  rw [hfiles]
  intro hflushed
  cases a with
  | act a => exact h.buffer (flushed_of_not_callsFile h.reach hc hlog hflushed)
  | writeEntry rot cr fw t =>
    -- asyncRun is still in the batch, or before its `flush`
    cases step_did hlog with
    | writeEntry _ hw =>
      rcases writeEntry_cases hw with ⟨-, h'⟩ | ⟨e, rest, -, -, w, ⟨-, h'⟩ | ⟨-, h'⟩⟩ <;>
        rw [h'] at hflushed <;> cases hflushed
  | flush cr fw t errno t' =>
    unfold LosesNothing at hloses
    unfold DiskLogger.calls at hloses ⊢
    split_ifs at hloses ⊢
    · obtain rfl : t' = .whole := hloses (.flush errno t') (by simp)
      exact (h.sim.write _ cr fw t).2.flush_buffer errno
    · obtain rfl : t' = .whole := hloses (.flush errno t') (by simp)
      exact h.sim.flush_buffer errno

theorem kept_diskStep {name : String} (h : s.Kept disk name) (honce : WritesOnce s a) (hloses : LosesNothing s a)
    (hs : s.step a = some s') : s'.Kept disk name := by
  obtain ⟨-, hlog, hfiles⟩ := diskStep_cases hs
  have hpipe := step_pipe (misslog_len_eq_zero h.reach) hlog
  refine ⟨h.reach.step hlog, ordered_step (reach_accounted h.reach) h.ordered hpipe ?_, sim_diskStep h.reach h.sim hs,
    ?_, ?_, buffer_diskStep h hloses hs⟩
  · intro rot cr fw b e rest ha hb hrest hput
    unfold WritesOnce at honce
    rw [ha] at honce
    exact honce b e rest hb hrest hput
  · rw [hfiles, after_filename, h.filename]
  · rw [hfiles]
    exact after_lost hloses h.lost

/-- **Every record is in the log files once and in order, or still queued**, in every state of every run of the logger that
logs to a named file, does not put a record into the files again, and loses nothing of its buffer. -/
theorem logged_always (name : String) (hname : name ≠ "") (pid : Nat) (disk : Disk) (c : Creation)
    (hc : c.header = .whole) (max_file_size : Nat) (acts : List DiskAct)
    (hok : StepsOk (diskLogger disk) (fun s a => WritesOnce s a ∧ LosesNothing s a)
      (.new name pid disk c max_file_size) acts) :
    Always (diskLogger disk) Logged (.new name pid disk c max_file_size) acts := by
  refine always_of_stepsOk (I := fun s => s.Kept disk name) ?_ ?_ (kept_diskNew name pid disk c hc max_file_size) hok
  · intro s h
    exact h.logged hname
  · intro s a s' h hok hs
    exact kept_diskStep h hok.1 hok.2 hs

/-- One record that goes through a batch at noon. -/
def oneRecord : List DiskAct :=
  [.act (.write 0 false 7 ['a'] .async), .act .lock, .act .iterate, .writeEntry atNoon atNoon .ok (.part 0 false),
    .writeEntry atNoon atNoon .ok .whole, .flush atNoon .ok .whole 0 .whole]

theorem atNoon_lossless : atNoon.Lossless := ⟨rfl, rfl⟩

/-- The record is still in the buffer when it was written, and in the file after the `flush`. -/
theorem oneRecord_logged :
    Always (diskLogger fun _ => none) Logged (.new "log" 7 (fun _ => none) atNoon 1000) oneRecord := by
  apply logged_always _ (by decide) _ _ _ rfl
  intro s1 h1
  refine ⟨⟨trivial, losesNothing_act⟩, fun s2 h2 => ⟨⟨trivial, losesNothing_act⟩, fun s3 h3 =>
    ⟨⟨trivial, losesNothing_act⟩, fun s4 h4 => ⟨⟨?_, ?_⟩, fun s5 _ => ⟨⟨?_, ?_⟩, fun s6 _ =>
      ⟨⟨trivial, ?_⟩, trivial⟩⟩⟩⟩⟩⟩
  · have hrun : ((diskLogger fun _ => none).exec (.new "log" 7 (fun _ => none) atNoon 1000) (oneRecord.take 3)).map
        (fun s => s.log.file_writer.spilled) = some false := by decide +kernel
    have hexec : (diskLogger fun _ => none).exec (.new "log" 7 (fun _ => none) atNoon 1000) (oneRecord.take 3) =
        some s3 := by
      simp [oneRecord, h1, h2, h3]
    rw [hexec] at hrun
    intro b e rest _ _ _
    exact Option.some.inj hrun
  · exact losesNothing_writeEntry atNoon_lossless atNoon_lossless fun _ h => nomatch h
  · have hrun : ((diskLogger fun _ => none).exec (.new "log" 7 (fun _ => none) atNoon 1000) (oneRecord.take 4)).map
        (fun s => s.log.file_writer.spilled) = some false := by decide +kernel
    have hexec : (diskLogger fun _ => none).exec (.new "log" 7 (fun _ => none) atNoon 1000) (oneRecord.take 4) =
        some s4 := by
      simp [oneRecord, h1, h2, h3, h4]
    rw [hexec] at hrun
    intro b e rest _ _ _
    exact Option.some.inj hrun
  · exact losesNothing_writeEntry atNoon_lossless atNoon_lossless Transfer.keeps_whole
  · exact losesNothing_flush atNoon_lossless Transfer.keeps_whole

end Steps

end BeanRaft.Logger
