import BeanRaft.Lib.Split
import BeanRaft.Logger.DiskLogger
import BeanRaft.Logger.Layout
import BeanRaft.Logger.Shutdown

/-!
# BeanRaft.Logger.LogFunction — from the calls of logfunction to the lines in the log files

The functions of `logger.hpp` over the logger on a disk: any number of threads call `logfunction`, which formats a record
in a buffer of the pool and hands it to `write`; nothing else calls `write`.  As in `Format`, `maxlen`, which the source
never assigns, is the size of such a buffer.

* `LoggingSystem`: the logger, the identifiers of the threads, the switch of the colors, and the call that each thread is
  in.  `handed` is history: the records in the order of their `write`, each with its color.
* `Legible`: a reader who cuts the bodies of the log files at the newlines finds the records, one in a line.
* `legible_always`: so it is in every state of a run that puts no record into the files again and loses nothing of what is
  in the buffer of a stream, when every record fits its buffer and has no newline of its own.
-/

namespace BeanRaft.Logger

open Lib Lts

/-- The arguments of `logfunction`; `message` is the text that `vsnprintf` makes of the last ones. -/
structure LogCall where
  loglevel : Int
  file : List UInt8
  line : Int32
  message : List UInt8
  deriving DecidableEq, Repr

structure LoggingSystem where
  logger : DiskLogger
  thread_identifier : Tid → UInt8
  use_color : Bool
  calls : Tid → LogCall
  handed : List (Record × Bool)

inductive LoggingAct
  | logfunction (t : Tid) (call : LogCall)
  /-- The formatting at a given time, and `write` up to its return or its first wait. -/
  | format (t : Tid) (tm_info : Tm) (tv_usec : Fin 1000000) (woken : Waiter)
  | setThreadLocalIdentifier (t : Tid) (identifier : UInt8)
  | setLogColor (set_color : Bool)
  | other (a : DiskAct)
  deriving DecidableEq, Repr

/-- The bytes of a buffer as the text of an entry. -/
def entryText (bs : List UInt8) : Text := bs.map fun b => Char.ofNat b.toNat

/-- The bytes that `write` is handed; `none` when they are not all in the buffer, or one was never stored. -/
def Record.bytes (r : Record) (use_color : Bool) : Option (List UInt8) :=
  (r.handed use_color).bind fun (buf, len) => if len ≤ buf.length then (buf.take len.toNat).mapM id else none

/-- The action is not one of those that `logfunction` begins or ends with. -/
def DiskAct.isOther : DiskAct → Bool
  | .act (.writeLog _ _) => false
  | .act a => !a.pushes
  | _ => true

namespace LoggingSystem

variable (s : LoggingSystem)

/-- What thread `t` formats. -/
def record (t : Tid) (tm_info : Tm) (tv_usec : Fin 1000000) : Record where
  loglevel := (s.calls t).loglevel
  file := (s.calls t).file
  line := (s.calls t).line
  thread_identifier := s.thread_identifier t
  tm_info := tm_info
  tv_usec := tv_usec
  message := (s.calls t).message
  usec_lt := tv_usec.isLt

def step : LoggingAct → Option LoggingSystem
  | .logfunction t call =>
    (s.logger.step (.act (.writeLog t call.loglevel))).map fun logger =>
      { s with logger := logger, calls := Function.update s.calls t call }
  | .format t tm_info tv_usec woken =>
    ((s.record t tm_info tv_usec).bytes s.use_color).bind fun bs =>
      (s.logger.step (.act (.format t (entryText bs) woken))).map fun logger =>
        { s with logger := logger, handed := s.handed ++ [(s.record t tm_info tv_usec, s.use_color)] }
  | .setThreadLocalIdentifier t identifier =>
    some { s with thread_identifier := Function.update s.thread_identifier t identifier }
  | .setLogColor set_color => some { s with use_color := set_color }
  | .other a => if a.isOther then (s.logger.step a).map fun logger => { s with logger := logger } else none

/-- `initLoggingSystem` -/
def new (name : String) (pid : Nat) (disk : Disk) (c : Creation) (max_file_size : Nat) : LoggingSystem :=
  ⟨.new name pid disk c max_file_size, fun _ => 32, false, fun _ => ⟨0, [], 0, []⟩, []⟩

end LoggingSystem

def loggingSystem (disk : Disk) : System LoggingSystem LoggingAct where
  init s := ∃ name pid c max_file_size, s = .new name pid disk c max_file_size
  step := LoggingSystem.step

/-! ## The property and its condition -/

/-- The line of a record, without its newline. -/
def lineOf (h : Record × Bool) : List UInt8 := h.1.body h.2

/-- The first `k` records are in the log files, one in a line, and at most the beginning of the next one; the last of those
that have left the queue is among them.  Between two batches all of this is on the disk.  When asyncRun has exited, there is
nothing else. -/
def Legible (s : LoggingSystem) : Prop :=
  ∃ (parts : List (List UInt8 × List UInt8)) (n k : Nat) (tail : List UInt8),
    List.Forall₂ (fun t part => s.logger.files.held t = some (t.headerText part.1 ++ part.2))
      s.logger.files.created parts ∧
    n + (s.logger.log.async.rest ++ s.logger.log.memtable).length = s.handed.length ∧
    (n ≤ k ∧ k ≤ n + 1 ∧ k ≤ s.handed.length) ∧
    Pieces [10] (parts.flatMap Prod.snd) ((s.handed.take k).map lineOf ++ [tail]) ∧
    tail <+: (s.handed[k]?.map lineOf).getD [] ∧
    (s.logger.log.async.flushed → s.logger.files.buffer = []) ∧
    (s.logger.log.async = .exited → k = n ∧ tail = [])

/-- A record leaves room for its null term and has no newline of its own; no record is put into the files again, and nothing
is lost between the buffer of a stream and its file. -/
def OneLine (s : LoggingSystem) : LoggingAct → Prop
  | .format t tm_info tv_usec _ =>
    let r := s.record t tm_info tv_usec
    (r.written s.use_color).length < MAX_LOG_BUFFER_SIZE ∧ 10 ∉ r.body s.use_color
  | .other a => WritesOnce s.logger a ∧ LosesNothing s.logger a
  | _ => True

section Records

variable {r : Record} {use_color : Bool} {h : Record × Bool} {bs : List UInt8}

theorem bytes_entryText (m n : Nat) (bs : List UInt8) : (Line.record ⟨m, entryText bs, n⟩).bytes = bs := by
  show (bs.map fun b => Char.ofNat b.toNat).map (fun c => UInt8.ofNat c.toNat) = bs
  rw [List.map_map]
  refine List.map_id'' (fun b => ?_) bs
  have hlt : b.toNat < 256 := b.toNat_lt
  have hvalid : b.toNat.isValidChar := .inl (by omega)
  have hchar : (Char.ofNat b.toNat).toNat = b.toNat := by
    unfold Char.ofNat
    rw [dif_pos hvalid]
    rfl
  show UInt8.ofNat (Char.ofNat b.toNat).toNat = b
  rw [hchar, UInt8.ofNat_toNat]

theorem mapM_some (bs : List UInt8) : (bs.map some).mapM id = some bs := by
  induction bs with
  | nil => rfl
  | cons b bs ih =>
    rw [List.map_cons, List.mapM_cons, ih]
    rfl

/-- A record that fits is handed over as it was printed. -/
theorem bytes_of_fits (hroom : (r.written use_color).length < MAX_LOG_BUFFER_SIZE) (h : r.bytes use_color = some bs) :
    bs = r.written use_color := by
  obtain ⟨⟨buf, len⟩, hhanded, hbytes⟩ := Option.bind_eq_some_iff.mp h
  obtain ⟨p, hp, -⟩ := Option.bind_eq_some_iff.mp hhanded
  obtain ⟨q, hq, -⟩ := Option.map_eq_some_iff.mp hp
  obtain ⟨buf', hbuf', htake⟩ := Record.hands_written (Record.header_isSome.mp ⟨q, hq⟩) hroom
  rw [hhanded] at hbuf'
  obtain ⟨rfl, rfl⟩ := Prod.mk.inj (Option.some.inj hbuf')
  dsimp only at hbytes
  split_ifs at hbytes
  rw [Int.toNat_natCast, htake, mapM_some] at hbytes
  exact (Option.some.inj hbytes).symm

end Records

section Steps

variable {s s' : LogWritter} {a : Act} {p p' : Pipe}

/-- Only `format` and `write` push. -/
theorem step_pushed (hr : Reach logger s) (ha : a.pushes = false) (h : s.step a = some s') : s'.pushed = s.pushed := by
  cases step_did h with
  | writeLog => exact congrArg Pipe.pushed (writeLog_pipe _ _)
  | allocate => exact congrArg Pipe.pushed (allocate_pipe _ _ _)
  | miss => exact congrArg Pipe.pushed (miss_pipe _ _ _)
  | retry => exact congrArg Pipe.pushed (retry_pipe _ _)
  | wake => exact congrArg Pipe.pushed (waitLoop_pipe _ _)
  | format | write => simp [Act.pushes] at ha
  | iterate =>
    rcases iterate_cases s with ⟨-, -, h'⟩ | ⟨-, -, -, h'⟩ | ⟨-, -, h'⟩ | ⟨-, h'⟩ <;> rw [h']
    exact congrArg Pipe.pushed prepareReport_pipe
  | writeEntry _ hw =>
    rcases writeEntry_cases hw with ⟨-, rfl⟩ | ⟨e, rest, -, -, w, ⟨-, rfl⟩ | ⟨-, rfl⟩⟩ <;> rfl
  | flush =>
    unfold LogWritter.flush
    rw [writeReport_eq_self (misslog_len_eq_zero hr)]
  | update _ hu => exact congrArg Pipe.pushed (update_pipe hu)
  | setSyncLoglevel => split <;> rfl
  | retryMiss | spurious | lock | setLogLevel | setFileRotateSize | stop => rfl

theorem format_pushed {t : Tid} {text : Text} {x : Waiter} (h : s.step (.format t text x) = some s') :
    ∃ m, s'.pushed = s.pushed ++ [⟨m, text, s.pushed.length⟩] := by
  cases step_did h with
  | @format _ buf _ _ _ _ _ _ hw => exact ⟨buf, congrArg Pipe.pushed (write_pipe hw)⟩

/-- After the exit the files hold what was accepted, and no part of another record. -/
def Settled (p : Pipe) : Prop :=
  p.async = .exited → p.file_writer.content = (p.pushed.take p.accepted).map wholeRecord

/-- asyncRun exits with an empty queue. -/
theorem settled_exit (hi : Accounted p) (ho : Ordered p) (hpc : p.async = .top) (hm : p.memtable = []) :
    p.file_writer.content = (p.pushed.take p.accepted).map wholeRecord := by
  rcases ho with ⟨-, hc⟩ | ⟨-, e, n, he, -⟩
  · exact hc
  · have hdrop := hi.drop_accepted
    rw [hpc, hm] at hdrop
    have hlen := List.drop_eq_nil_iff.mp hdrop
    obtain ⟨hlt, -⟩ := List.getElem?_eq_some_iff.mp he
    omega

theorem settled_step (hi : Accounted p) (ho : Ordered p) (h : Settled p) (hs : PipeStep p a p') : Settled p' := by
  cases hs with
  | stutter => exact h
  | resize n => exact h
  | exit hpc hm =>
    intro _
    have hexit := settled_exit hi ho hpc hm
    unfold Pipe.accepted at hexit ⊢
    rw [hpc] at hexit
    exact hexit
  | push e he =>
    intro hpc
    have htake : (p.pushed ++ [e]).take p.accepted = p.pushed.take p.accepted :=
      List.take_append_of_le_length hi.accepted_le
    show p.file_writer.content = ((p.pushed ++ [e]).take p.accepted).map wholeRecord
    rw [htake]
    exact h hpc
  | lock | park | swap | done | refused | written | flush | update =>
    intro hpc
    cases hpc

end Steps

/-- The pushed records are the lines of `handed`, in order. -/
structure Matched (s : LoggingSystem) : Prop where
  lines : s.logger.log.pushed.map (fun e => (Line.record e).bytes) = s.handed.map fun h => lineOf h ++ [10]
  oneLine : ∀ h ∈ s.handed, 10 ∉ lineOf h

section Lines

variable {s : LoggingSystem} {bytes tail : List UInt8} {k : Nat} {e : Entry}

theorem Matched.bytes_take (hm : Matched s) (k : Nat) :
    recordBytes (s.logger.log.pushed.take k) = ((s.handed.take k).map lineOf).flatMap (· ++ [10]) := by
  have htake := congrArg (List.take k) hm.lines
  rw [← List.map_take, ← List.map_take] at htake
  unfold recordBytes
  rw [List.flatMap_def, htake, List.flatMap_def, List.map_map]
  rfl

theorem Matched.length (hm : Matched s) : s.logger.log.pushed.length = s.handed.length := by
  simpa using congrArg List.length hm.lines

theorem Matched.pieces (hm : Matched s) (htail : 10 ∉ tail)
    (hbytes : bytes = recordBytes (s.logger.log.pushed.take k) ++ tail) :
    Pieces [10] bytes ((s.handed.take k).map lineOf ++ [tail]) := by
  rw [hbytes, hm.bytes_take]
  refine pieces_lines (fun l hl => ?_) htail
  obtain ⟨h, hh, rfl⟩ := List.mem_map.mp hl
  exact hm.oneLine h (List.mem_of_mem_take hh)

theorem Matched.next (hm : Matched s) (he : s.logger.log.pushed[k]? = some e) :
    ∃ h, s.handed[k]? = some h ∧ (Line.record e).bytes = lineOf h ++ [10] := by
  have hk := congrArg (fun l => l[k]?) hm.lines
  simp only [List.getElem?_map, he, Option.map_some] at hk
  obtain ⟨h, hh, hline⟩ := Option.map_eq_some_iff.mp hk.symm
  exact ⟨h, hh, hline.symm⟩

/-- What is in the files, in lines: the accepted records, and the next one as far as it got. -/
theorem Matched.content_lines (hm : Matched s) (hi : Accounted s.logger.log.pipe) (ho : Ordered s.logger.log.pipe)
    (hs : Settled s.logger.log.pipe) :
    ∃ k tail, (s.logger.log.pipe.accepted ≤ k ∧ k ≤ s.logger.log.pipe.accepted + 1 ∧ k ≤ s.handed.length) ∧
      Pieces [10] (s.logger.log.file_writer.content.flatMap Frag.bytes) ((s.handed.take k).map lineOf ++ [tail]) ∧
      tail <+: (s.handed[k]?.map lineOf).getD [] ∧
      (s.logger.log.async = .exited → k = s.logger.log.pipe.accepted ∧ tail = []) := by
  have hlen := hm.length
  have hle : s.logger.log.pipe.accepted ≤ s.logger.log.pushed.length := hi.accepted_le
  have hwhole : ((s.logger.log.pipe.pushed.take s.logger.log.pipe.accepted).map wholeRecord).flatMap Frag.bytes =
      recordBytes (s.logger.log.pushed.take s.logger.log.pipe.accepted) := bytes_wholeRecords _
  have hnil : 10 ∉ ([] : List UInt8) := List.not_mem_nil
  rcases ho with ⟨-, hc⟩ | ⟨-, e, n, he, hn, hc⟩
  · have hbytes := (congrArg (·.flatMap Frag.bytes) hc).trans hwhole
    refine ⟨s.logger.log.pipe.accepted, [], ⟨le_rfl, by omega, by omega⟩, ?_, List.nil_prefix, ?_⟩
    · exact hm.pieces hnil (hbytes.trans (List.append_nil _).symm)
    · intro _
      exact ⟨rfl, rfl⟩
  obtain ⟨h, hh, hline⟩ := hm.next he
  have hlive : s.logger.log.async ≠ .exited := by
    intro hexit
    have hsettled := (hs hexit).symm.trans hc
    exact absurd (List.self_eq_append_right.mp hsettled) (List.cons_ne_nil _ _)
  have hbytes : s.logger.log.file_writer.content.flatMap Frag.bytes =
      recordBytes (s.logger.log.pushed.take s.logger.log.pipe.accepted) ++ (lineOf h ++ [10]).take n := by
    refine (congrArg (·.flatMap Frag.bytes) hc).trans ?_
    rw [List.flatMap_append, hwhole, ← hline]
    simp [Frag.bytes]
  have hmsg : e.message_len = (lineOf h).length + 1 := by
    have hlength := congrArg List.length hline
    simpa [Line.bytes, Entry.message_len] using hlength
  obtain ⟨hlt, hget⟩ := List.getElem?_eq_some_iff.mp hh
  have hclean := hm.oneLine h (hget ▸ List.getElem_mem hlt)
  by_cases hpart : n ≤ (lineOf h).length
  · refine ⟨s.logger.log.pipe.accepted, (lineOf h).take n, ⟨le_rfl, by omega, by omega⟩, ?_, ?_, ?_⟩
    · refine hm.pieces (fun hmem => hclean (List.mem_of_mem_take hmem)) ?_
      rw [hbytes, List.take_append_of_le_length hpart]
    · rw [hh]
      exact List.take_prefix _ _
    · exact fun hx => absurd hx hlive
  · -- the whole line is there, but `write` has returned false
    refine ⟨s.logger.log.pipe.accepted + 1, [], ⟨by omega, le_rfl, by omega⟩, ?_, List.nil_prefix, ?_⟩
    swap
    · exact fun hx => absurd hx hlive
    have htake : (lineOf h ++ [10]).take n = lineOf h ++ [10] := by
      refine List.take_of_length_le ?_
      rw [List.length_append, List.length_singleton]
      omega
    refine hm.pieces hnil ?_
    rw [hbytes, htake, List.append_nil, hm.bytes_take, hm.bytes_take, List.take_add_one, hh, List.map_append,
      List.flatMap_append]
    simp

theorem Matched.legible (hm : Matched s) (hs : Settled s.logger.log.pipe) {disk : Disk} {name : String}
    (hk : s.logger.Kept disk name) (hname : name ≠ "") : Legible s := by
  have hi := reach_accounted hk.reach
  obtain ⟨parts, hparts, hbytes⟩ := parts_of_holds (hk.sim.holds (hk.named hname) hk.lost)
  obtain ⟨k, tail, hbounds, hpieces, htail, hexit⟩ := hm.content_lines hi hk.ordered hs
  refine ⟨parts, s.logger.log.pipe.accepted, k, tail, hparts, ?_, hbounds, ?_, htail, hk.buffer, hexit⟩
  · have hdrop : s.logger.log.pushed.drop s.logger.log.pipe.accepted = s.logger.log.async.rest ++ s.logger.log.memtable :=
      hi.drop_accepted
    have hle : s.logger.log.pipe.accepted ≤ s.logger.log.pushed.length := hi.accepted_le
    have hlen := hm.length
    rw [← hdrop, List.length_drop]
    omega
  · rw [hbytes]
    exact hpieces

end Lines

/-! ## Runs -/

section Runs

variable {disk : Disk} {name : String} {s s' : LoggingSystem} {a : LoggingAct}

/-- What a step keeps that meets `OneLine`. -/
structure LoggingSystem.Kept (disk : Disk) (name : String) (s : LoggingSystem) : Prop where
  logger : s.logger.Kept disk name
  settled : Settled s.logger.log.pipe
  matched : Matched s

/-- A step of the logger below. -/
theorem LoggingSystem.Kept.below (h : s.Kept disk name) {b : DiskAct} {logger' : DiskLogger} (honce : WritesOnce s.logger b)
    (hloses : LosesNothing s.logger b) (hs : s.logger.step b = some logger') :
    logger'.Kept disk name ∧ Settled logger'.log.pipe := by
  obtain ⟨-, hlog, -⟩ := diskStep_cases hs
  have hpipe := step_pipe (misslog_len_eq_zero h.logger.reach) hlog
  exact ⟨kept_diskStep h.logger honce hloses hs,
    settled_step (reach_accounted h.logger.reach) h.logger.ordered h.settled hpipe⟩

/-- A step of the logger that pushes nothing. -/
theorem LoggingSystem.Kept.quiet (h : s.Kept disk name) {b : DiskAct} {logger' : DiskLogger}
    (honce : WritesOnce s.logger b) (hloses : LosesNothing s.logger b)
    (hquiet : (s.logger.logAct b).pushes = false) (hs : s.logger.step b = some logger')
    (hs' : s'.logger = logger') (hhanded : s'.handed = s.handed) : s'.Kept disk name := by
  subst hs'
  obtain ⟨hkept, hsettled⟩ := h.below honce hloses hs
  obtain ⟨-, hlog, -⟩ := diskStep_cases hs
  refine ⟨hkept, hsettled, ?_, ?_⟩
  · rw [step_pushed h.logger.reach hquiet hlog, hhanded]
    exact h.matched.lines
  · rw [hhanded]
    exact h.matched.oneLine

theorem kept_loggingStep (h : s.Kept disk name) (hok : OneLine s a) (hs : (loggingSystem disk).step s a = some s') :
    s'.Kept disk name := by
  cases a with
  | logfunction t call =>
    obtain ⟨logger', hstep, rfl⟩ := Option.map_eq_some_iff.mp hs
    have honce : WritesOnce s.logger (.act (.writeLog t call.loglevel)) := trivial
    exact h.quiet honce losesNothing_act rfl hstep rfl rfl
  | setThreadLocalIdentifier t identifier =>
    obtain rfl := Option.some.inj hs
    exact ⟨h.logger, h.settled, h.matched.lines, h.matched.oneLine⟩
  | setLogColor set_color =>
    obtain rfl := Option.some.inj hs
    exact ⟨h.logger, h.settled, h.matched.lines, h.matched.oneLine⟩
  | other b =>
    obtain ⟨hother, hs⟩ := Option.ite_none_right_eq_some.mp hs
    obtain ⟨logger', hstep, rfl⟩ := Option.map_eq_some_iff.mp hs
    refine h.quiet hok.1 hok.2 ?_ hstep rfl rfl
    cases b with
    | writeEntry | flush => rfl
    | act b => cases b <;> first | rfl | simp [DiskAct.isOther, Act.pushes] at hother
  | format t tm_info tv_usec woken =>
    obtain ⟨hroom, hclean⟩ := hok
    obtain ⟨bs, hbs, hs⟩ := Option.bind_eq_some_iff.mp hs
    obtain ⟨logger', hstep, rfl⟩ := Option.map_eq_some_iff.mp hs
    have honce : WritesOnce s.logger (.act (.format t (entryText bs) woken)) := trivial
    obtain ⟨hkept, hsettled⟩ := h.below honce losesNothing_act hstep
    obtain ⟨-, hlog, -⟩ := diskStep_cases hstep
    obtain ⟨m, hpushed⟩ := format_pushed hlog
    obtain rfl := bytes_of_fits hroom hbs
    refine ⟨hkept, hsettled, ?_, ?_⟩
    · show logger'.log.pushed.map _ = (s.handed ++ [_]).map _
      rw [hpushed, List.map_append, List.map_append, h.matched.lines, List.map_singleton, List.map_singleton,
        bytes_entryText]
      rfl
    · intro r hr
      rcases List.mem_append.mp hr with hr | hr
      · exact h.matched.oneLine r hr
      · rw [List.mem_singleton.mp hr]
        exact hclean

/-- **A reader of the log files sees the records**, one in a line and in the order in which they were handed over, in every
state of every run in which each record fits its buffer, has no newline of its own, and is not put into the files again,
and nothing of the buffer of a stream is lost. -/
theorem legible_always (name : String) (hname : name ≠ "") (pid : Nat) (disk : Disk) (c : Creation)
    (hc : c.header = .whole) (max_file_size : Nat) (acts : List LoggingAct)
    (hok : StepsOk (loggingSystem disk) OneLine (.new name pid disk c max_file_size) acts) :
    Always (loggingSystem disk) Legible (.new name pid disk c max_file_size) acts := by
  refine always_of_stepsOk (I := fun s => s.Kept disk name) ?_ ?_ ?_ hok
  · intro s h
    exact h.matched.legible h.settled h.logger hname
  · intro s a s' h hok hs
    exact kept_loggingStep h hok hs
  · refine ⟨kept_diskNew name pid disk c hc max_file_size, ?_, rfl, ?_⟩
    · intro hexit
      cases hexit
    · intro h hh
      exact absurd hh List.not_mem_nil

/-- `logInfo("x")` in line 1 of `a.cpp`, through a batch. -/
def infoRun : List LoggingAct :=
  [.logfunction 0 ⟨1, ascii "a.cpp", 1, ascii "x"⟩, .other (.act (.allocate 0)),
    .format 0 Record.infoRecord.tm_info 0 .async, .other (.act .lock), .other (.act .iterate),
    .other (.writeEntry atNoon atNoon .ok (.part 0 false))]

theorem infoRun_legible :
    Always (loggingSystem fun _ => none) Legible (.new "log" 7 (fun _ => none) atNoon 1000) infoRun := by
  apply legible_always _ (by decide) _ _ _ rfl
  intro s1 h1
  refine ⟨trivial, fun s2 h2 => ⟨⟨trivial, losesNothing_act⟩, fun s3 h3 => ⟨?_, fun s4 h4 =>
    ⟨⟨trivial, losesNothing_act⟩, fun s5 h5 => ?_⟩⟩⟩⟩
  · have hrun : ((loggingSystem fun _ => none).exec (.new "log" 7 (fun _ => none) atNoon 1000) (infoRun.take 2)).map
        (fun s => (s.record 0 Record.infoRecord.tm_info 0, s.use_color)) = some (Record.infoRecord, false) := by
      decide +kernel
    have hexec : (loggingSystem fun _ => none).exec (.new "log" 7 (fun _ => none) atNoon 1000) (infoRun.take 2) =
        some s2 := by
      simp [infoRun, h1, h2]
    rw [hexec] at hrun
    obtain ⟨hrecord, hcolor⟩ := Prod.mk.inj (Option.some.inj hrun)
    show (Record.written (s2.record 0 _ 0) s2.use_color).length < _ ∧ 10 ∉ Record.body (s2.record 0 _ 0) s2.use_color
    rw [hrecord, hcolor]
    exact ⟨Record.infoRecord_whole false, by decide +kernel⟩
  · refine ⟨⟨trivial, losesNothing_act⟩, fun s6 _ => ⟨⟨?_, ?_⟩, trivial⟩⟩
    swap
    · exact losesNothing_writeEntry atNoon_lossless atNoon_lossless fun _ h => nomatch h
    have hrun : ((loggingSystem fun _ => none).exec (.new "log" 7 (fun _ => none) atNoon 1000) (infoRun.take 5)).map
        (fun s => s.logger.log.file_writer.spilled) = some false := by decide +kernel
    have hexec : (loggingSystem fun _ => none).exec (.new "log" 7 (fun _ => none) atNoon 1000) (infoRun.take 5) =
        some s5 := by
      simp [infoRun, h1, h2, h3, h4, h5]
    rw [hexec] at hrun
    intro b e rest _ _ _
    exact Option.some.inj hrun

end Runs

end BeanRaft.Logger
