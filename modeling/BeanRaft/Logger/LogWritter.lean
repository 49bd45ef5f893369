import Mathlib.Data.Finset.Basic
import Mathlib.Logic.Function.Basic
import BeanRaft.Lib.Lts
import BeanRaft.Lib.CInt
import BeanRaft.Logger.FileWritter

/-!
# BeanRaft.Logger.LogWritter — the logger as a transition system

The class `LogWritter` of `logger.cpp`: any number of threads inside `writeLog` and `write`, the async thread
inside `asyncRun`, the setters and the destructor.  One action is one section under `mu`, one call of the
allocator, one turn of the batch loop (which runs without `mu`), or a wake-up.

* `mu` is held from one action to the next only by the async thread at the head of its loop (`AsyncPc.top`);
  every section of another thread starts and ends within one action (`muFree`).
* `cv` is the set of the threads parked on the condition variable.  A thread that was notified, timed out or woke
  for no reason has left the set and still has to take `mu` again.
* `LoggerAllocator::deallocate` does not take the mutex of the allocator; its `push_back` is taken as one action all the
  same, apart from the calls of `allocate`.
* The indices count entries and are not wrapped at 64 bits; `miss_logs` is an `int`.
* `pushed`, `dropped` and `reported` are history: every entry ever pushed, the number of the `writeLog` calls that
  found no buffer, and the reports handed to `FileWritter::write`.
-/

namespace BeanRaft.Logger

open Lts CInt

def MAX_LOG_BUFFER_SIZE : Nat := 4096
def MAX_LOG_ENTRY : Nat := 2048
def DEFAULT_MAX_FILE_SIZE : Nat := 4 * 2 ^ 30

def LOG_INFO : Int := 1
def LOG_FATAL : Int := 4

abbrev Tid := Nat

structure LoggerAllocator where
  freelist : List Nat
  deriving DecidableEq, Repr

namespace LoggerAllocator

/-- The constructor: `MAX_LOG_ENTRY` buffers, named by their number. -/
def new : LoggerAllocator := ⟨List.range MAX_LOG_ENTRY⟩

def allocate (a : LoggerAllocator) : Option Nat × LoggerAllocator :=
  match a.freelist with
  | [] => (none, a)
  | p :: ps => (some p, ⟨ps⟩)

def deallocate (a : LoggerAllocator) (p : Nat) : LoggerAllocator := ⟨a.freelist ++ [p]⟩

end LoggerAllocator

/-- A thread that may be parked on `cv`. -/
inductive Waiter
  | async
  | writer (t : Tid)
  deriving DecidableEq, Repr

/-- Where a logging thread is. -/
inductive WriterPc
  | idle
  /-- In `writeLog`, before the first `allocate` (line 366). -/
  | allocating (level : Int) (should_flush : Bool)
  /-- The first `allocate` returned NULL (line 369). -/
  | missed (level : Int) (should_flush : Bool)
  /-- Asleep before the `allocate` of the retry loop (line 379). -/
  | retrying (should_flush : Bool)
  /-- The `allocate` of the retry loop returned NULL (line 385). -/
  | retryMissed
  /-- Formats into `buf`, then calls `write` (line 393). -/
  | formatting (buf : Nat) (should_flush : Bool)
  /-- In the wait loop of `write` (line 335). -/
  | waiting (need_flushed_index : Nat)
  deriving DecidableEq, Repr

/-- The locals of one batch: `table` is `written ++ rest` with the iterator `ite` at `rest`. -/
structure Batch where
  written : List Entry
  rest : List Entry
  current_flushed_logs : Nat
  current_written_size : Nat
  deriving DecidableEq, Repr

/-- Where the async thread is. -/
inductive AsyncPc
  /-- Takes `mu` before the inner `while` (line 435), or is parked in its `wait_for`. -/
  | waiting
  /-- Holds `mu` at the head of the loop (line 435). -/
  | top
  /-- In the batch loop (line 460). -/
  | batch (b : Batch)
  /-- After the batch loop (line 475). -/
  | flushing (b : Batch)
  /-- Takes `mu` after the batch (line 482). -/
  | relock (b : Batch)
  | exited
  deriving DecidableEq, Repr

structure LogWritter where
  file_writer : FileWritter
  alloc : LoggerAllocator
  cv : Finset Waiter
  loglevel : Int
  sync_loglevel : Int
  miss_logs : Int
  blocked_threads : Nat
  written_log_index : Nat
  flushed_log_index : Nat
  memtable_size : Nat
  memtable : List Entry
  running : Bool
  disk_full_try_times : Nat
  max_file_size : Nat
  misslog_buf : Text
  misslog_len : Nat
  async : AsyncPc
  writers : Tid → WriterPc
  pushed : List Entry
  dropped : Nat
  reported : List Text

/-- The text of a report of `n` missed logs (line 450). -/
def missLine (n : Int) : Text :=
  ("Exceed max log size, miss logs: " ++ toString n ++ ", current mem size: " ++
    toString (MAX_LOG_BUFFER_SIZE * MAX_LOG_ENTRY)).toList

/-- What `snprintf(buf, size, ..)` leaves in the buffer, without the NUL. -/
def snprintf (size : Nat) (text : Text) : Text := text.take (size - 1)

def sizeofInt : Nat := 4

inductive Act
  | writeLog (t : Tid) (level : Int)
  | allocate (t : Tid)
  | miss (t : Tid)
  | retry (t : Tid)
  | retryMiss (t : Tid)
  /-- Formatting, and `write` up to its return or its first wait. -/
  | format (t : Tid) (text : Text) (woken : Waiter)
  /-- A direct call of `write`, up to its return or its first wait. -/
  | write (t : Tid) (force_flush : Bool) (message : Nat) (text : Text) (woken : Waiter)
  /-- A woken writer takes `mu` again. -/
  | wake (t : Tid)
  /-- A time-out, or a wake-up without a cause. -/
  | spurious (x : Waiter)
  | lock
  | iterate
  | writeEntry (rot cr : CreateResult) (fw : FwriteResult)
  | flush (cr : CreateResult) (fw : FwriteResult) (errno : Errno)
  | update (woken : Waiter)
  | setLogLevel (level : Int)
  | setSyncLoglevel (level : Int)
  | setFileRotateSize (mb : Nat)
  /-- The destructor, up to the join. -/
  | stop
  deriving DecidableEq, Repr

namespace LogWritter

variable (s : LogWritter)

/-- Between two actions `mu` is held by no thread. -/
def muFree : Prop := s.async ≠ .top

instance : Decidable s.muFree := inferInstanceAs (Decidable (s.async ≠ .top))

def setWriter (t : Tid) (pc : WriterPc) : LogWritter := { s with writers := Function.update s.writers t pc }

def notifyAll : LogWritter := { s with cv := ∅ }

/-- `cv.notify_one()` wakes some one parked thread, if there is one. -/
def notifyOne (x : Waiter) : Option LogWritter :=
  if x ∈ s.cv then some { s with cv := s.cv.erase x } else if s.cv = ∅ then some s else none

/-- The wait loop of `write` (lines 335-339), with `mu` held: park, or return. -/
def waitLoop (t : Tid) (need_flushed_index : Nat) : LogWritter :=
  if need_flushed_index > s.flushed_log_index then
    { s.setWriter t (.waiting need_flushed_index) with cv := insert (.writer t) s.cv }
  else { s.setWriter t .idle with blocked_threads := s.blocked_threads - 1 }

/-- Lines 321-323: the entry goes to the end of `memtable`. -/
def push (message : Nat) (text : Text) : LogWritter :=
  let e : Entry := ⟨message, text, s.pushed.length⟩
  { s with
    memtable := s.memtable ++ [e]
    written_log_index := s.written_log_index + 1
    memtable_size := s.memtable_size + e.message_len
    pushed := s.pushed ++ [e] }

/-- `write` (line 318), up to its return or its first wait. -/
def write (t : Tid) (force_flush : Bool) (message : Nat) (text : Text) (woken : Waiter) : Option LogWritter :=
  let s := (s.setWriter t .idle).push message text
  if force_flush then
    if s.disk_full_try_times > 0 then some { s with disk_full_try_times := s.disk_full_try_times - 1 }
    else
      let s := { s with blocked_threads := s.blocked_threads + 1 }
      some (s.notifyAll.waitLoop t s.written_log_index)
  else if s.memtable_size > 10240 then
    if s.disk_full_try_times > 0 then some { s with disk_full_try_times := s.disk_full_try_times - 1 }
    else if s.blocked_threads > 0 then some s.notifyAll
    else s.notifyOne woken
  else some s

/-- `writeLog` (line 356), up to its first `allocate`. -/
def writeLog (t : Tid) (level : Int) : LogWritter :=
  if level < s.loglevel then s
  else s.setWriter t (.allocating level (decide (level ≥ s.sync_loglevel)))

/-- Line 366. -/
def allocate (t : Tid) (level : Int) (should_flush : Bool) : LogWritter :=
  match s.alloc.allocate with
  | (none, _) => s.setWriter t (.missed level should_flush)
  | (some buf, a) => { s.setWriter t (.formatting buf should_flush) with alloc := a }

/-- `miss_logs++` and the return of `writeLog` (lines 372 and 386). -/
def drop (t : Tid) : LogWritter :=
  { s.setWriter t .idle with miss_logs := int32 (s.miss_logs + 1), dropped := s.dropped + 1 }

/-- Lines 369-375. -/
def miss (t : Tid) (level : Int) (should_flush : Bool) : LogWritter :=
  if level < s.sync_loglevel then s.drop t else s.setWriter t (.retrying should_flush)

/-- Lines 379-384: a buffer ends the loop, and so does a NULL. -/
def retry (t : Tid) (should_flush : Bool) : LogWritter :=
  match s.alloc.allocate with
  | (none, _) => s.setWriter t .retryMissed
  | (some buf, a) => { s.setWriter t (.formatting buf should_flush) with alloc := a }

/-- Lines 448-452.  The `misslog_len` assigned there is a variable of the block: the one of the function, which
line 475 tests, keeps its value.  The size given to `snprintf` is the one of an `int`. -/
def prepareReport : LogWritter :=
  if s.miss_logs > 0 then
    { s with misslog_buf := snprintf sizeofInt (missLine s.miss_logs), miss_logs := 0 }
  else s

/-- One turn of the outer loop of `asyncRun` as far as `mu` is held (lines 435-456). -/
def iterate : LogWritter :=
  if s.running ∧ s.memtable = [] then { s with async := .waiting, cv := insert .async s.cv }
  else if s.disk_full_try_times > 0 ∧ s.running then { s with disk_full_try_times := s.disk_full_try_times - 1 }
  else if ¬ s.running ∧ s.memtable = [] then { s with async := .exited }
  else { s.prepareReport with async := .batch ⟨[], s.memtable, 0, 0⟩, memtable := [] }

/-- One turn of the batch loop (lines 460-474). -/
def writeEntry (b : Batch) (rot cr : CreateResult) (fw : FwriteResult) : Option LogWritter :=
  match b.rest with
  | [] => some { s with async := .flushing b }
  | e :: rest =>
    if fw.Fits (.record e) then
      match (s.file_writer.rotateIfNeed s.max_file_size rot).write (.record e) cr fw with
      | (w, false) => some { s with file_writer := w, async := .flushing b }
      | (w, true) =>
        some
          { s with
            file_writer := w
            alloc := s.alloc.deallocate e.message
            async := .batch ⟨b.written ++ [e], rest, b.current_flushed_logs + 1,
              b.current_written_size + e.message_len⟩ }
    else none

/-- Lines 475-478. -/
def writeReport (cr : CreateResult) (fw : FwriteResult) : LogWritter :=
  if s.misslog_len > 0 then
    { s with
      file_writer := (s.file_writer.write (.report (s.misslog_buf.take s.misslog_len)) cr fw).1
      reported := s.reported ++ [s.misslog_buf.take s.misslog_len]
      misslog_len := 0 }
  else s

/-- Lines 475-479. -/
def flush (b : Batch) (cr : CreateResult) (fw : FwriteResult) (errno : Errno) : LogWritter :=
  let s := s.writeReport cr fw
  { s with file_writer := s.file_writer.flush errno, async := .relock b }

/-- Lines 483-490: what was not written goes back to the front of `memtable`. -/
def splice (b : Batch) : LogWritter :=
  if b.rest = [] then s else { s with memtable := b.rest ++ s.memtable, disk_full_try_times := 10 }

/-- Lines 483-492: the metadata of the logger after a batch. -/
def endBatch (b : Batch) : LogWritter :=
  let s := s.splice b
  { s with
    memtable_size := s.memtable_size - b.current_written_size
    flushed_log_index := s.flushed_log_index + b.current_flushed_logs
    async := .top }

/-- Lines 482-497, from taking `mu` to the head of the loop. -/
def update (b : Batch) (woken : Waiter) : Option LogWritter :=
  let s := s.endBatch b
  if s.blocked_threads = 1 then s.notifyOne woken
  else if s.blocked_threads > 1 then some s.notifyAll
  else some s

/-- The transition function; `none` when the thread of the action is elsewhere or `mu` is not free. -/
def step (s : LogWritter) : Act → Option LogWritter
  | .writeLog t level => if s.muFree ∧ s.writers t = .idle then some (s.writeLog t level) else none
  | .allocate t =>
    match s.writers t with
    | .allocating level should_flush => some (s.allocate t level should_flush)
    | _ => none
  | .miss t =>
    match s.writers t with
    | .missed level should_flush => if s.muFree then some (s.miss t level should_flush) else none
    | _ => none
  | .retry t =>
    match s.writers t with
    | .retrying should_flush => some (s.retry t should_flush)
    | _ => none
  | .retryMiss t => if s.muFree ∧ s.writers t = .retryMissed then some (s.drop t) else none
  | .format t text woken =>
    match s.writers t with
    | .formatting buf should_flush => if s.muFree then s.write t should_flush buf text woken else none
    | _ => none
  | .write t force_flush message text woken =>
    if s.muFree ∧ s.writers t = .idle then s.write t force_flush message text woken else none
  | .wake t =>
    match s.writers t with
    | .waiting need => if s.muFree ∧ .writer t ∉ s.cv then some (s.waitLoop t need) else none
    | _ => none
  | .spurious x => if x ∈ s.cv then some { s with cv := s.cv.erase x } else none
  | .lock => if s.async = .waiting ∧ .async ∉ s.cv then some { s with async := .top } else none
  | .iterate => if s.async = .top then some s.iterate else none
  | .writeEntry rot cr fw =>
    match s.async with
    | .batch b => s.writeEntry b rot cr fw
    | _ => none
  | .flush cr fw errno =>
    match s.async with
    | .flushing b => some (s.flush b cr fw errno)
    | _ => none
  | .update woken =>
    match s.async with
    | .relock b => s.update b woken
    | _ => none
  | .setLogLevel level => if s.muFree then some { s with loglevel := level } else none
  | .setSyncLoglevel level =>
    if s.muFree then some (if level < s.loglevel then s else { s with sync_loglevel := level }) else none
  | .setFileRotateSize mb => if s.muFree then some { s with max_file_size := 2 ^ 20 * mb % 2 ^ 64 } else none
  | .stop => if s.muFree then some { s with running := false, cv := ∅ } else none

/-- The constructor (line 268) for a file name, with any maximal file size in place of the default one. -/
def new (filename : String) (r : CreateResult) (max_file_size : Nat) : LogWritter where
  file_writer := .new filename r
  alloc := .new
  cv := ∅
  loglevel := LOG_INFO
  sync_loglevel := LOG_FATAL
  miss_logs := 0
  blocked_threads := 0
  written_log_index := 0
  flushed_log_index := 0
  memtable_size := 0
  memtable := []
  running := true
  disk_full_try_times := 0
  max_file_size := max_file_size
  misslog_buf := []
  misslog_len := 0
  async := .waiting
  writers := fun _ => .idle
  pushed := []
  dropped := 0
  reported := []

end LogWritter

/-- The logger with its default file size and a file named "log". -/
def start : LogWritter := .new "log" (.created 100 0) DEFAULT_MAX_FILE_SIZE

/-- The logger as a transition system. -/
def logger : System LogWritter Act where
  init s := ∃ filename r max_file_size, s = .new filename r max_file_size
  step := LogWritter.step

end BeanRaft.Logger
