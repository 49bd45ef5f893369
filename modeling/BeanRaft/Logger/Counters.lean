import BeanRaft.Logger.Order

/-!
# BeanRaft.Logger.Counters — the queue accounting of LogWritter in its 64-bit counters

* `Words`: the counters that are `uint64_t` in the code, with its wrapping arithmetic.  `Metered`: the logger with them,
  and with the records that `FileWritter::write` has accepted.
* `Metered.Exact`: in every reachable state the counters are the numbers that the logger counts, modulo 2^64.
* `balanced_of_reach`: while fewer than 2^64 records and bytes were pushed, the counters account for the queue.
-/

namespace BeanRaft.Logger

open Lts

/-! ## The counters of the code -/

/-- The counters of one batch of asyncRun. -/
structure BatchWords where
  current_flushed_logs : UInt64
  current_written_size : UInt64
  deriving DecidableEq, Repr

structure Words where
  written_log_index : UInt64
  flushed_log_index : UInt64
  memtable_size : UInt64
  /-- From the swap of `memtable` (line 457) to the update (line 492). -/
  batch : Option BatchWords
  deriving DecidableEq, Repr

namespace Words

variable (w : Words)

/-- Lines 322-323. -/
def push (message_len : Nat) : Words :=
  { w with
    written_log_index := w.written_log_index + 1
    memtable_size := w.memtable_size + UInt64.ofNat message_len }

/-- Lines 458-459. -/
def swap : Words := { w with batch := some ⟨0, 0⟩ }

/-- Lines 472-473. -/
def write (message_len : Nat) : Words :=
  { w with
    batch := w.batch.map fun b => ⟨b.current_flushed_logs + 1, b.current_written_size + UInt64.ofNat message_len⟩ }

/-- Lines 491-492. -/
def update : Words :=
  match w.batch with
  | none => w
  | some b =>
    { w with
      memtable_size := w.memtable_size - b.current_written_size
      flushed_log_index := w.flushed_log_index + b.current_flushed_logs
      batch := none }

end Words

/-- The batch whose table asyncRun has. -/
def AsyncPc.running : AsyncPc → Option Batch
  | batch b | flushing b | relock b => some b
  | _ => none

theorem AsyncPc.table_eq_running (pc : AsyncPc) : pc.table = pc.running.elim [] fun b => b.written ++ b.rest := by
  cases pc <;> rfl

theorem AsyncPc.written_eq (pc : AsyncPc) : pc.written = pc.running.elim [] Batch.written := by
  cases pc <;> rfl

/-- The record for which `FileWritter::write` returns true in the action. -/
def LogWritter.accepts (s : LogWritter) : Act → Option Entry
  | .writeEntry rot cr fw =>
    match s.async with
    | .batch b => b.rest.head?.filter fun e => (s.pipe.writeCall e rot cr fw).2
    | _ => none
  | _ => none

/-- What an action of the logger, which ends in `log'`, does to the counters. -/
def Words.next (w : Words) (log log' : LogWritter) (a : Act) : Words :=
  match a with
  | .format _ text _ | .write _ _ _ text _ => w.push text.length
  | .iterate => if log'.async.running.isSome then w.swap else w
  | .writeEntry _ _ _ => (log.accepts a).elim w fun e => w.write e.message_len
  | .update _ => w.update
  | _ => w

/-- The logger, its counters, and the records that `FileWritter::write` has accepted. -/
structure Metered where
  log : LogWritter
  words : Words
  accepted : List Entry

namespace Metered

variable (s : Metered)

def next (a : Act) (log' : LogWritter) : Metered :=
  ⟨log', s.words.next s.log log' a, s.accepted ++ (s.log.accepts a).toList⟩

def step (a : Act) : Option Metered := (s.log.step a).map (s.next a)

def start (filename : String) (r : CreateResult) (max_file_size : Nat) : Metered :=
  ⟨.new filename r max_file_size, ⟨0, 0, 0, none⟩, []⟩

/-- The records that are queued: the whole table of the running batch, if there is one, and `memtable`. -/
def queued : List Entry := s.log.async.table ++ s.log.memtable

end Metered

def meteredLogger : System Metered Act where
  init s := ∃ filename r max_file_size, s = .start filename r max_file_size
  step := Metered.step

/-! ## The property -/

/-- The counters account for the queue. -/
structure Balanced (s : Metered) : Prop where
  /-- Neither difference underflows. -/
  index_le : s.words.flushed_log_index ≤ s.words.written_log_index
  size_le : ∀ b ∈ s.words.batch, b.current_written_size ≤ s.words.memtable_size
  records : (s.words.written_log_index - s.words.flushed_log_index).toNat = s.queued.length
  bytes : s.words.memtable_size.toNat = (s.queued.map Entry.message_len).sum
  /-- Without a running batch this is `memtable` alone. -/
  queue : s.log.async.running = none → s.queued = s.log.memtable
  /-- The record with the number `n + 1`. -/
  flushed : ∀ n e, s.log.pushed[n]? = some e → n < s.words.flushed_log_index.toNat → e ∈ s.accepted
  /-- What was accepted was put into a log file as a whole. -/
  files : ∀ e ∈ s.accepted, wholeRecord e ∈ s.log.records

/-! ## The counters are exact -/

section Exact

variable {s s' : Metered} {log' : LogWritter} {p : Pipe} {a : Act}

def Words.of (p : Pipe) : Words where
  written_log_index := UInt64.ofNat p.written_log_index
  flushed_log_index := UInt64.ofNat p.flushed_log_index
  memtable_size := UInt64.ofNat p.memtable_size
  batch := p.async.running.map fun b => ⟨UInt64.ofNat b.current_flushed_logs, UInt64.ofNat b.current_written_size⟩

/-- The counters are the numbers that the logger counts, modulo 2^64, and the records that were accepted are the first
ones. -/
structure Metered.Exact (s : Metered) : Prop where
  words : s.words = .of s.log.pipe
  accepted : s.accepted = s.log.pushed.take s.log.pipe.accepted

theorem Words.of_push (p : Pipe) (e : Entry) : Words.of
    { p with
      memtable := p.memtable ++ [e]
      written_log_index := p.written_log_index + 1
      memtable_size := p.memtable_size + e.message_len
      pushed := p.pushed ++ [e] } = (Words.of p).push e.message_len := by
  unfold Words.of Words.push
  rw [UInt64.ofNat_add, UInt64.ofNat_add, UInt64.ofNat_one]

theorem Words.of_write {b : Batch} (h : p.async = .batch b) (e : Entry) (rest : List Entry) (w : FileWritter) : Words.of
    { p with
      file_writer := w
      async := .batch ⟨b.written ++ [e], rest, b.current_flushed_logs + 1, b.current_written_size + e.message_len⟩ } =
      (Words.of p).write e.message_len := by
  unfold Words.of Words.write
  rw [h]
  simp only [AsyncPc.running, Option.map_some]
  rw [UInt64.ofNat_add, UInt64.ofNat_add, UInt64.ofNat_one]

theorem Words.of_update {b : Batch} (h : p.async = .relock b) (hle : b.current_written_size ≤ p.memtable_size) : Words.of
    { p with
      memtable := b.rest ++ p.memtable
      memtable_size := p.memtable_size - b.current_written_size
      flushed_log_index := p.flushed_log_index + b.current_flushed_logs
      async := .top } = (Words.of p).update := by
  unfold Words.of Words.update
  rw [h]
  simp only [AsyncPc.running, Option.map_some, Option.map_none]
  rw [UInt64.ofNat_sub hle, UInt64.ofNat_add]

/-- The batch has written a part of what is queued. -/
theorem Accounted.written_size_le (hi : Accounted p) {b : Batch} (h : p.async.running = some b) :
    b.current_written_size ≤ p.memtable_size := by
  obtain ⟨ht, hc⟩ : p.async.table = b.written ++ b.rest ∧ b.Counted := by
    have hcounted := hi.counted
    cases hpc : p.async with
    | batch b' | flushing b' | relock b' =>
      rw [hpc] at h hcounted
      obtain rfl := Option.some.inj h
      exact ⟨rfl, hcounted⟩
    | waiting | top | exited =>
      rw [hpc] at h
      cases h
  rw [hi.size, hc.2, ht, List.append_assoc, List.map_append, List.sum_append]
  exact Nat.le_add_right _ _

/-- The action leaves the records that were accepted as they are. -/
theorem Metered.Exact.of_words (he : s.Exact) (ha : s.log.accepts a = none)
    (hw : s.words.next s.log log' a = .of log'.pipe) (hpushed : ∃ es, log'.pushed = s.log.pushed ++ es)
    (hacc : log'.pipe.accepted = s.log.pipe.accepted) (hi : Accounted s.log.pipe) : (s.next a log').Exact := by
  refine ⟨hw, ?_⟩
  obtain ⟨es, hes⟩ := hpushed
  show s.accepted ++ (s.log.accepts a).toList = log'.pushed.take log'.pipe.accepted
  have hle : s.log.pipe.accepted ≤ s.log.pushed.length := hi.accepted_le
  rw [ha, hacc, hes, List.take_append_of_le_length hle, ← he.accepted]
  exact List.append_nil _

/-- Nothing that is counted changes. -/
theorem Metered.Exact.of_running (he : s.Exact) (hi : Accounted s.log.pipe) (ha : s.log.accepts a = none)
    (hw : s.words.next s.log log' a = s.words) {pc : AsyncPc} {l : List Entry} {w : FileWritter} {n : Nat}
    (hp : log'.pipe = { s.log.pipe with async := pc, memtable := l, file_writer := w, max_file_size := n })
    (hrun : pc.running = s.log.async.running) : (s.next a log').Exact := by
  refine he.of_words ha ?_ ⟨[], ?_⟩ ?_ hi
  · rw [hw, he.words, hp]
    unfold Words.of
    dsimp only
    rw [hrun]
    rfl
  · exact (congrArg Pipe.pushed hp).trans (List.append_nil _).symm
  · rw [hp]
    show s.log.flushed_log_index + pc.written.length = s.log.flushed_log_index + s.log.async.written.length
    rw [pc.written_eq, s.log.async.written_eq, hrun]

theorem Metered.Exact.of_pipe (he : s.Exact) (hi : Accounted s.log.pipe) (ha : s.log.accepts a = none)
    (hw : s.words.next s.log log' a = s.words) (hp : log'.pipe = s.log.pipe) : (s.next a log').Exact :=
  he.of_running hi ha hw hp rfl

/-- `write` pushes a record. -/
theorem Metered.Exact.of_push (he : s.Exact) (hi : Accounted s.log.pipe) {m : Nat} {text : Text}
    (ha : s.log.accepts a = none) (hw : s.words.next s.log log' a = s.words.push text.length)
    (hp : log'.pipe = (s.log.push m text).pipe) : (s.next a log').Exact := by
  refine he.of_words ha ?_ ⟨_, congrArg Pipe.pushed hp⟩ (by rw [hp]; rfl) hi
  rw [hw, he.words, hp]
  exact (Words.of_push s.log.pipe ⟨m, text, s.log.pushed.length⟩).symm

/-- The counters of a batch start at 0. -/
theorem Metered.Exact.of_swap (he : s.Exact) (hi : Accounted s.log.pipe) (hpc : s.log.async = .top)
    (ha : s.log.accepts a = none) (hw : s.words.next s.log log' a = s.words.swap)
    (hp : log'.pipe = { s.log.pipe with async := .batch ⟨[], s.log.memtable, 0, 0⟩, memtable := [] }) :
    (s.next a log').Exact := by
  refine he.of_words ha ?_ ⟨[], ?_⟩ ?_ hi
  · rw [hw, he.words, hp]
    rfl
  · exact (congrArg Pipe.pushed hp).trans (List.append_nil _).symm
  · rw [hp]
    show s.log.flushed_log_index + 0 = s.log.flushed_log_index + s.log.async.written.length
    rw [hpc]
    rfl

theorem Metered.Exact.iterate (he : s.Exact) (hi : Accounted s.log.pipe) (hpc : s.log.async = .top) :
    (s.next .iterate s.log.iterate).Exact := by
  have hnext : s.words.next s.log s.log.iterate .iterate =
    if s.log.iterate.async.running.isSome then s.words.swap else s.words := rfl
  rcases iterate_cases s.log with ⟨-, -, h⟩ | ⟨-, -, -, h⟩ | ⟨-, -, h⟩ | ⟨-, h⟩ <;> rw [h] at hnext ⊢
  · exact he.of_running hi rfl hnext rfl (by rw [hpc]; rfl)
  · exact he.of_pipe hi rfl (hnext.trans (by rw [hpc]; rfl)) rfl
  · exact he.of_running hi rfl hnext rfl (by rw [hpc]; rfl)
  · refine he.of_swap hi hpc rfl hnext ?_
    rw [← prepareReport_pipe (s := s.log)]
    rfl

theorem Metered.Exact.writeEntry {b : Batch} {rot cr : CreateResult} {fw : FwriteResult} (he : s.Exact)
    (hi : Accounted s.log.pipe) (hpc : s.log.async = .batch b) (h : s.log.writeEntry b rot cr fw = some log') :
    (s.next (.writeEntry rot cr fw) log').Exact := by
  have hacc : s.log.accepts (.writeEntry rot cr fw) =
      b.rest.head?.filter fun e => (s.log.pipe.writeCall e rot cr fw).2 := by
    unfold LogWritter.accepts
    dsimp only
    rw [hpc]
  have hnext : s.words.next s.log log' (.writeEntry rot cr fw) =
    (s.log.accepts (.writeEntry rot cr fw)).elim s.words fun e => s.words.write e.message_len := rfl
  rcases writeEntry_cases h with ⟨hr, rfl⟩ | ⟨e, rest, hr, -, w, ⟨hw, rfl⟩ | ⟨hw, rfl⟩⟩
  · rw [hr] at hacc
    rw [hacc] at hnext
    exact he.of_running hi hacc hnext rfl (by rw [hpc]; rfl)
  · have hno : (s.log.pipe.writeCall e rot cr fw).2 = false := congrArg Prod.snd hw
    have hnone : s.log.accepts (.writeEntry rot cr fw) = none := by
      rw [hacc, hr, List.head?_cons, Option.filter_some, hno]
      rfl
    rw [hnone] at hnext
    exact he.of_running hi hnone hnext rfl (by rw [hpc]; rfl)
  · have hyes : (s.log.pipe.writeCall e rot cr fw).2 = true := congrArg Prod.snd hw
    have hsome : s.log.accepts (.writeEntry rot cr fw) = some e := by
      rw [hacc, hr, List.head?_cons, Option.filter_some, hyes]
      rfl
    rw [hsome] at hnext
    refine ⟨hnext.trans ?_, ?_⟩
    · rw [he.words]
      exact (Words.of_write hpc e rest w).symm
    · show s.accepted ++ (s.log.accepts _).toList = s.log.pushed.take (s.log.flushed_log_index + (b.written ++ [e]).length)
      have hget : s.log.pushed[s.log.pipe.accepted]? = some e := hi.next hpc hr
      have haccepted : s.log.pipe.accepted = s.log.flushed_log_index + b.written.length := by
        show s.log.flushed_log_index + s.log.async.written.length = _
        rw [hpc]
        rfl
      rw [List.length_append, List.length_singleton, ← Nat.add_assoc, ← haccepted, List.take_add_one, hget, hsome,
        he.accepted]

theorem Metered.Exact.update {b : Batch} {x : Waiter} (he : s.Exact) (hi : Accounted s.log.pipe)
    (hpc : s.log.async = .relock b) (h : s.log.update b x = some log') : (s.next (.update x) log').Exact := by
  have hp := update_pipe h
  have hcounted := hi.counted
  have hrun : s.log.pipe.async.running = some b := by
    show s.log.async.running = some b
    rw [hpc]
    rfl
  refine he.of_words rfl ?_ ⟨[], ?_⟩ ?_ hi
  · show s.words.update = _
    rw [hp, he.words]
    exact (Words.of_update hpc (hi.written_size_le hrun)).symm
  · exact (congrArg Pipe.pushed hp).trans (List.append_nil _).symm
  · rw [show s.log.pipe.async = .relock b from hpc] at hcounted
    rw [hp]
    show s.log.flushed_log_index + b.current_flushed_logs + 0 = s.log.flushed_log_index + s.log.async.written.length
    rw [hpc, hcounted.1]
    rfl

/-- **Every step of the logger keeps the counters exact.** -/
theorem Metered.Exact.step (he : s.Exact) (hi : Accounted s.log.pipe) (h0 : s.log.misslog_len = 0)
    (h : s.log.step a = some log') : (s.next a log').Exact := by
  cases step_did h with
  | writeLog => exact he.of_pipe hi rfl rfl (writeLog_pipe _ _)
  | allocate => exact he.of_pipe hi rfl rfl (allocate_pipe _ _ _)
  | miss => exact he.of_pipe hi rfl rfl (miss_pipe _ _ _)
  | retry => exact he.of_pipe hi rfl rfl (retry_pipe _ _)
  | retryMiss => exact he.of_pipe hi rfl rfl rfl
  | format _ _ h => exact he.of_push hi rfl rfl (write_pipe h)
  | write _ _ h => exact he.of_push hi rfl rfl (write_pipe h)
  | wake => exact he.of_pipe hi rfl rfl (waitLoop_pipe _ _)
  | spurious => exact he.of_pipe hi rfl rfl rfl
  | lock hpc => exact he.of_running hi rfl rfl rfl (by rw [hpc]; rfl)
  | iterate hpc => exact he.iterate hi hpc
  | writeEntry hpc h => exact he.writeEntry hi hpc h
  | flush hpc =>
    unfold LogWritter.flush
    rw [writeReport_eq_self h0]
    exact he.of_running hi rfl rfl rfl (by rw [hpc]; rfl)
  | update hpc h => exact he.update hi hpc h
  | setLogLevel => exact he.of_pipe hi rfl rfl rfl
  | setSyncLoglevel => exact he.of_pipe hi rfl rfl (by split <;> rfl)
  | setFileRotateSize => exact he.of_running hi rfl rfl rfl rfl
  | stop => exact he.of_pipe hi rfl rfl rfl

theorem Metered.reach_log (h : Reach meteredLogger s) : Reach logger s.log := by
  refine h.invariant (I := fun s => Reach logger s.log) ?_ fun s a s' _ hi hs => ?_
  · rintro s ⟨filename, r, n, rfl⟩
    exact .init ⟨filename, r, n, rfl⟩
  · obtain ⟨log', hlog, rfl⟩ := Option.map_eq_some_iff.mp hs
    exact hi.step hlog

theorem reach_exact (h : Reach meteredLogger s) : s.Exact := by
  refine h.invariant ?_ fun s a s' hr he hs => ?_
  · rintro s ⟨filename, r, n, rfl⟩
    exact ⟨rfl, rfl⟩
  · obtain ⟨log', hlog, rfl⟩ := Option.map_eq_some_iff.mp hs
    have hlogger := Metered.reach_log hr
    exact he.step (reach_accounted hlogger) (misslog_len_eq_zero hlogger) hlog

end Exact

/-! ## What was accepted is in the files -/

section Files

variable {s s' : Metered} {p p' : Pipe} {a : Act}

/-- What a turn of the batch loop puts into the files. -/
theorem writeCall_content (p : Pipe) (e : Entry) (rot cr : CreateResult) (fw : FwriteResult) :
    ∃ fs, (p.writeCall e rot cr fw).1.content = p.file_writer.content ++ fs := by
  have hw := write_content (w := p.file_writer.rotateIfNeed p.max_file_size rot) (.record e) cr fw
  rw [rotateIfNeed_content] at hw
  exact ⟨_, hw⟩

/-- The log files only grow. -/
theorem PipeStep.content (h : PipeStep p a p') : ∃ fs, p'.file_writer.content = p.file_writer.content ++ fs := by
  cases h with
  | refused | written => exact writeCall_content p _ _ _ _
  | flush b errno => exact ⟨[], (flush_content errno).trans (List.append_nil _).symm⟩
  | stutter | push | resize | lock | park | exit | swap | done | update => exact ⟨[], (List.append_nil _).symm⟩

/-- An accepted record is put into a file as a whole. -/
theorem accepts_content {log log' : LogWritter} {e : Entry} (ha : log.accepts a = some e) (h : log.step a = some log') :
    wholeRecord e ∈ log'.file_writer.content := by
  cases step_did h with
  | @writeEntry b rot cr fw _ hpc hw =>
    unfold LogWritter.accepts at ha
    dsimp only at ha
    rw [hpc] at ha
    obtain ⟨hhead, hyes⟩ := Option.filter_eq_some_iff.mp ha
    rcases writeEntry_cases hw with ⟨hr, -⟩ | ⟨e', rest, hr, -, w, ⟨hno, -⟩ | ⟨hok, rfl⟩⟩
    · rw [hr] at hhead
      cases hhead
    · rw [hr] at hhead
      obtain rfl := Option.some.inj hhead
      rw [show log.pipe.writeCall e' rot cr fw = (w, false) from hno] at hyes
      cases hyes
    · rw [hr] at hhead
      obtain rfl := Option.some.inj hhead
      obtain ⟨-, -, -, hcont⟩ := write_true (congrArg Prod.snd hok)
      rw [hok] at hcont
      show wholeRecord e' ∈ w.content
      rw [hcont]
      exact List.mem_append_right _ List.mem_cons_self
  | writeLog | allocate | miss | retry | retryMiss | format | write | wake | spurious | lock | iterate | flush | update
    | setLogLevel | setSyncLoglevel | setFileRotateSize | stop => cases ha

/-- A record that was accepted is whole in the log files, where `fwrite` fails with `ENOSPC` only. -/
theorem accepted_in_files (h : Reach meteredLogger s) : ∀ e ∈ s.accepted, wholeRecord e ∈ s.log.records := by
  have hcontent : ∀ e ∈ s.accepted, wholeRecord e ∈ s.log.file_writer.content := by
    refine h.invariant (I := fun s => ∀ e ∈ s.accepted, wholeRecord e ∈ s.log.file_writer.content) ?_
      fun s a s' hr hi hs => ?_
    · rintro s ⟨filename, r, n, rfl⟩ e he
      cases he
    · obtain ⟨log', hlog, rfl⟩ := Option.map_eq_some_iff.mp hs
      obtain ⟨fs, hfs⟩ := (step_pipe (misslog_len_eq_zero (Metered.reach_log hr)) hlog).content
      intro e he
      rcases List.mem_append.mp he with hold | hnew
      · show wholeRecord e ∈ log'.pipe.file_writer.content
        rw [hfs]
        exact List.mem_append_left _ (hi e hold)
      · exact accepts_content (Option.mem_toList.mp hnew) hlog
  intro e he
  exact List.mem_filter.mpr ⟨hcontent e he, rfl⟩

end Files

/-! ## The accounting -/

section Balance

variable {s : Metered} {p : Pipe}

theorem toNat_ofNat {n : Nat} (h : n < 2 ^ 64) : (UInt64.ofNat n).toNat = n := UInt64.toNat_ofNat_of_lt' h

theorem Accounted.queue_length (hi : Accounted p) :
    (p.async.table ++ p.memtable).length = p.written_log_index - p.flushed_log_index := by
  rw [← hi.queue, List.length_drop, hi.written]

theorem Accounted.size_le (hi : Accounted p) : p.memtable_size ≤ (p.pushed.map Entry.message_len).sum := by
  have hsum := congrArg (fun l => (l.map Entry.message_len).sum) (List.take_append_drop p.flushed_log_index p.pushed)
  simp only [List.map_append, List.sum_append] at hsum
  rw [hi.size, ← hi.queue, ← hsum]
  exact Nat.le_add_left _ _

/-- Fewer than 2^64 records and bytes were pushed. -/
def Metered.InRange (s : Metered) : Prop :=
  s.log.pushed.length < 2 ^ 64 ∧ (s.log.pushed.map Entry.message_len).sum < 2 ^ 64

/-- In range the counters do not wrap. -/
theorem Metered.Exact.toNat (he : s.Exact) (hi : Accounted s.log.pipe) (hr : s.InRange) :
    s.words.written_log_index.toNat = s.log.written_log_index ∧
      s.words.flushed_log_index.toNat = s.log.flushed_log_index ∧
      s.words.memtable_size.toNat = s.log.memtable_size := by
  obtain ⟨hrecords, hbytes⟩ := hr
  have hwritten : s.log.written_log_index = s.log.pushed.length := hi.written
  have hflushed : s.log.flushed_log_index ≤ s.log.pushed.length := hi.le
  have hsize : s.log.memtable_size ≤ (s.log.pushed.map Entry.message_len).sum := hi.size_le
  rw [he.words]
  exact ⟨toNat_ofNat (by show s.log.written_log_index < _; omega),
    toNat_ofNat (Nat.lt_of_le_of_lt hflushed hrecords), toNat_ofNat (Nat.lt_of_le_of_lt hsize hbytes)⟩

/-- **The counters account for the queue** in every reachable state in range. -/
theorem balanced_of_reach (h : Reach meteredLogger s) (hrecords : s.log.pushed.length < 2 ^ 64)
    (hbytes : (s.log.pushed.map Entry.message_len).sum < 2 ^ 64) : Balanced s := by
  have hi := reach_accounted (Metered.reach_log h)
  have he := reach_exact h
  obtain ⟨hwritten, hflushed, hsize⟩ := he.toNat hi ⟨hrecords, hbytes⟩
  have hle : s.words.flushed_log_index ≤ s.words.written_log_index := by
    rw [UInt64.le_iff_toNat_le, hflushed, hwritten]
    exact Nat.le_trans hi.le (Nat.le_of_eq hi.written.symm)
  refine ⟨hle, ?_, ?_, ?_, ?_, ?_, accepted_in_files h⟩
  · intro w hw
    rw [he.words] at hw
    obtain ⟨b, hb, rfl⟩ := Option.map_eq_some_iff.mp hw
    have hbatch := hi.written_size_le hb
    rw [UInt64.le_iff_toNat_le, hsize, toNat_ofNat (Nat.lt_of_le_of_lt (Nat.le_trans hbatch hi.size_le) hbytes)]
    exact hbatch
  · rw [UInt64.toNat_sub_of_le _ _ hle, hwritten, hflushed]
    exact hi.queue_length.symm
  · rw [hsize]
    exact hi.size
  · intro hnone
    unfold Metered.queued
    rw [s.log.async.table_eq_running, hnone]
    rfl
  · intro n e hget hn
    rw [hflushed] at hn
    rw [he.accepted]
    have hlt : n < s.log.pipe.accepted := Nat.lt_of_lt_of_le hn (Nat.le_add_right _ _)
    refine List.mem_of_getElem? (i := n) ?_
    rw [List.getElem?_take_of_lt hlt]
    exact hget

/-- Two records are pushed; the first is written, the second is refused and goes back to `memtable`. -/
def refusedRun : List Act :=
  [.write 0 false 0 ['a'] .async, .write 0 false 1 ['b', 'c'] .async, .lock, .iterate,
    .writeEntry (.failed 0) (.failed 0) .ok, .writeEntry (.failed 0) (.failed 0) (.enospc 0), .flush (.failed 0) .ok 0,
    .update .async]

theorem refusedRun_balanced : ∃ s, meteredLogger.exec (.start "log" (.created 100 0) DEFAULT_MAX_FILE_SIZE) refusedRun = some s ∧
    s.words = ⟨2, 1, 2, none⟩ ∧ s.log.memtable.length = 1 ∧ Balanced s := by
  have hrun : meteredLogger.exec (.start "log" (.created 100 0) DEFAULT_MAX_FILE_SIZE) refusedRun = some _ := rfl
  exact ⟨_, hrun, rfl, rfl, balanced_of_reach (reach_exec (.init ⟨_, _, _, rfl⟩) hrun) (by decide) (by decide)⟩

end Balance

end BeanRaft.Logger
