import BeanRaft.Lib.Shared
import BeanRaft.Logger.Pipe

/-!
# BeanRaft.Logger.Buffers — who owns the buffers of the pool

* `Pool`: the free list, the buffers the writers hold, and the buffers of the entries that are queued or in the
  table and not yet written.
* `PoolStep`: what one action can do to it.  `step_pool`: every step of the logger does one of these things, unless
  it is a call of `write` from outside `writeLog`, which brings a buffer of its own.
* `Owned`: the buffers are partitioned, and all of them are back once asyncRun has exited and nobody logs.
-/

namespace BeanRaft.Logger

open Lts Lib

variable {s s' : LogWritter} {a : Act}

/-- The buffer a thread holds in `writeLog`. -/
def WriterPc.buf : WriterPc → Option Nat
  | formatting buf _ => some buf
  | _ => none

structure Pool where
  freelist : List Nat
  bufs : Tid → Option Nat
  queue : List Nat

/-- The buffers of the entries that are not yet written, in their order. -/
def LogWritter.unwritten (s : LogWritter) : List Nat := (s.async.rest ++ s.memtable).map Entry.message

def LogWritter.pool (s : LogWritter) : Pool :=
  ⟨s.alloc.freelist, WriterPc.buf ∘ s.writers, s.unwritten⟩

/-- What an action can do to the pool. -/
inductive PoolStep (p : Pool) : Pool → Prop
  | stutter : PoolStep p p
  | take (t : Tid) (b : Nat) (fs : List Nat) (hf : p.freelist = b :: fs) (ht : p.bufs t = none) :
    PoolStep p { p with freelist := fs, bufs := Function.update p.bufs t (some b) }
  | push (t : Tid) (b : Nat) (ht : p.bufs t = some b) :
    PoolStep p { p with bufs := Function.update p.bufs t none, queue := p.queue ++ [b] }
  | put (b : Nat) (q : List Nat) (hq : p.queue = b :: q) :
    PoolStep p { p with freelist := p.freelist ++ [b], queue := q }

theorem PoolStep.of_eq {p p' p'' : Pool} (hs : PoolStep p p') (h : p'' = p') : PoolStep p p'' := by
  rw [h]
  exact hs

/-! ## The pool of each piece of the logger -/

theorem setWriter_pool (s : LogWritter) (t : Tid) (pc : WriterPc) :
    (s.setWriter t pc).pool = { s.pool with bufs := Function.update s.pool.bufs t pc.buf } :=
  congrArg (fun bufs => { s.pool with bufs := bufs }) (setWriter_comp WriterPc.buf s t pc)

theorem setWriter_pool_self {t : Tid} {p : WriterPc} (h : p.buf = (s.writers t).buf) :
    (s.setWriter t p).pool = s.pool :=
  congrArg (fun bufs => { s.pool with bufs := bufs }) (setWriter_comp_self h)

/-- `waitLoop` and the notifications leave the pool alone. -/
theorem waitLoop_pool {t : Tid} {n : Nat} (h : (s.writers t).buf = none) : (s.waitLoop t n).pool = s.pool := by
  rcases waitLoop_cases s t n with ⟨-, hw⟩ | ⟨-, hw⟩ <;> rw [hw]
  · exact setWriter_pool_self (p := .waiting n) h.symm
  · exact setWriter_pool_self (p := .idle) h.symm

theorem write_pool {t : Tid} {f : Bool} {m : Nat} {text : Text} {x : Waiter} (h : s.write t f m text x = some s') :
    s'.pool = ((s.setWriter t .idle).push m text).pool := by
  rcases write_cases h with ⟨-, rfl⟩ | ⟨-, rfl⟩ | ⟨-, rfl | rfl | ⟨-, hn⟩⟩
  · rfl
  · refine waitLoop_pool ?_
    show (Function.update s.writers t .idle t).buf = none
    rw [Function.update_self]
    rfl
  · rfl
  · rfl
  · rcases notifyOne_cases hn with ⟨-, rfl⟩ | ⟨-, rfl⟩ <;> rfl

theorem format_pool {t : Tid} {buf : Nat} {f : Bool} {text : Text} {x : Waiter} (hpc : s.writers t = .formatting buf f)
    (h : s.write t f buf text x = some s') : PoolStep s.pool s'.pool := by
  have hpush : ((s.setWriter t .idle).push buf text).pool =
      { (s.setWriter t .idle).pool with queue := s.unwritten ++ [buf] } := by
    unfold LogWritter.pool LogWritter.unwritten LogWritter.push
    simp [LogWritter.setWriter]
  rw [setWriter_pool] at hpush
  exact (PoolStep.push (p := s.pool) t buf (by simp [LogWritter.pool, hpc, WriterPc.buf])).of_eq
    ((write_pool h).trans hpush)

/-- An `allocate` hands out the first free buffer, or there is none. -/
theorem allocate_pool {t : Tid} {f : Nat → WriterPc} (h : (s.writers t).buf = none) (hpc : ∀ b, (f b).buf = some b)
    {b : Nat} {al : LoggerAllocator} (ha : s.alloc.allocate = (some b, al)) :
    PoolStep s.pool { s.setWriter t (f b) with alloc := al }.pool := by
  cases hf : s.alloc.freelist with
  | nil => simp [LoggerAllocator.allocate, hf] at ha
  | cons b' fs =>
    simp only [LoggerAllocator.allocate, hf, Prod.mk.injEq, Option.some.injEq] at ha
    obtain ⟨rfl, rfl⟩ := ha
    have hset := setWriter_pool s t (f b')
    rw [hpc] at hset
    exact (PoolStep.take (p := s.pool) t b' fs hf h).of_eq (congrArg (fun p : Pool => { p with freelist := fs }) hset)

theorem iterate_pool (hpc : s.async = .top) : s.iterate.pool = s.pool := by
  rcases iterate_cases s with ⟨-, -, h⟩ | ⟨-, -, -, h⟩ | ⟨-, -, h⟩ | ⟨-, h⟩ <;> rw [h]
  · simp [LogWritter.pool, LogWritter.unwritten, hpc, AsyncPc.rest]
  · rfl
  · simp [LogWritter.pool, LogWritter.unwritten, hpc, AsyncPc.rest]
  · unfold LogWritter.prepareReport
    split <;> simp [LogWritter.pool, LogWritter.unwritten, hpc, AsyncPc.rest]

theorem writeEntry_pool {b : Batch} {rot cr : CreateResult} {fw : FwriteResult} (hpc : s.async = .batch b)
    (h : s.writeEntry b rot cr fw = some s') : PoolStep s.pool s'.pool := by
  have same : ∀ {pc : AsyncPc} {w : FileWritter}, pc.rest = b.rest →
      ({ s with file_writer := w, async := pc } : LogWritter).pool = s.pool := by
    intro pc w hr
    show (⟨s.alloc.freelist, WriterPc.buf ∘ s.writers, (pc.rest ++ s.memtable).map Entry.message⟩ : Pool) = _
    rw [hr]
    simp [LogWritter.pool, LogWritter.unwritten, hpc, AsyncPc.rest]
  rcases writeEntry_cases h with ⟨-, rfl⟩ | ⟨e, rest, hr, -, w, ⟨-, rfl⟩ | ⟨-, rfl⟩⟩
  · exact PoolStep.stutter.of_eq (same rfl)
  · exact PoolStep.stutter.of_eq (same rfl)
  · have hq : s.pool.queue = e.message :: (rest ++ s.memtable).map Entry.message := by
      simp [LogWritter.pool, LogWritter.unwritten, hpc, hr, AsyncPc.rest]
    exact .put (p := s.pool) e.message _ hq

theorem update_pool {b : Batch} {x : Waiter} (hpc : s.async = .relock b) (h : s.update b x = some s') :
    s'.pool = s.pool := by
  have hend : (s.endBatch b).pool = s.pool := by
    unfold LogWritter.endBatch LogWritter.splice
    split
    · rename_i hr
      simp [LogWritter.pool, LogWritter.unwritten, hpc, hr, AsyncPc.rest]
    · simp [LogWritter.pool, LogWritter.unwritten, hpc, AsyncPc.rest]
  rw [← hend]
  rcases update_cases h with ⟨-, hn⟩ | ⟨-, rfl⟩ | ⟨-, rfl⟩
  · rcases notifyOne_cases hn with ⟨-, rfl⟩ | ⟨-, rfl⟩ <;> rfl
  · rfl
  · rfl

/-- A call of `write` from outside `writeLog`. -/
def Act.direct : Act → Bool
  | .write _ _ _ _ _ => true
  | _ => false

/-- **Every step of the logger does to its pool one of the things of `PoolStep`.** -/
theorem step_pool (h0 : s.misslog_len = 0) (hd : a.direct = false) (h : s.step a = some s') :
    PoolStep s.pool s'.pool := by
  have away : ∀ {t : Tid} {pc pc' : WriterPc}, s.writers t = pc → pc'.buf = pc.buf →
      PoolStep s.pool (s.setWriter t pc').pool := fun hw hb =>
    PoolStep.stutter.of_eq (setWriter_pool_self (by rw [hw]; exact hb))
  cases step_did h with
  | writeLog hmu hpc =>
    unfold LogWritter.writeLog
    split
    · exact .stutter
    · exact away hpc rfl
  | allocate hpc =>
    unfold LogWritter.allocate
    split
    · exact away hpc rfl
    · rename_i level f buf al ha
      exact allocate_pool (f := fun b => .formatting b _) (by rw [hpc]; rfl) (fun _ => rfl) ha
  | miss hmu hpc =>
    unfold LogWritter.miss
    split <;> exact away hpc rfl
  | retry hpc =>
    unfold LogWritter.retry
    split
    · exact away hpc rfl
    · rename_i f buf al ha
      exact allocate_pool (f := fun b => .formatting b _) (by rw [hpc]; rfl) (fun _ => rfl) ha
  | retryMiss hmu hpc => exact away hpc rfl
  | format hmu hpc h => exact format_pool hpc h
  | write => cases hd
  | wake hmu hpc hcv => exact PoolStep.stutter.of_eq (waitLoop_pool (by rw [hpc]; rfl))
  | spurious => exact .stutter
  | lock hpc hcv => exact PoolStep.stutter.of_eq (by simp [LogWritter.pool, LogWritter.unwritten, hpc, AsyncPc.rest])
  | iterate hpc => exact PoolStep.stutter.of_eq (iterate_pool hpc)
  | writeEntry hpc h => exact writeEntry_pool hpc h
  | flush hpc =>
    unfold LogWritter.flush
    rw [writeReport_eq_self h0]
    exact PoolStep.stutter.of_eq (by simp [LogWritter.pool, LogWritter.unwritten, hpc, AsyncPc.rest])
  | update hpc h => exact PoolStep.stutter.of_eq (update_pool hpc h)
  | setLogLevel => exact .stutter
  | setSyncLoglevel => split <;> exact .stutter
  | setFileRotateSize => exact .stutter
  | stop => exact .stutter

/-! ## The invariant -/

/-- Each buffer of the pool is free, held by one writer, or in one entry. -/
def Pool.Partition (p : Pool) : Prop := Shared (List.range MAX_LOG_ENTRY) (p.freelist ++ p.queue) p.bufs

theorem partition_step {p p' : Pool} (hi : p.Partition) (h : PoolStep p p') : p'.Partition := by
  unfold Pool.Partition at hi ⊢
  cases h with
  | stutter => exact hi
  | take t b fs hf ht =>
    rw [hf] at hi
    exact hi.take ht
  | push t b ht =>
    refine (hi.give ht).perm ?_
    rw [← List.append_assoc]
    exact List.perm_append_singleton b _
  | put b q hq =>
    rw [hq] at hi
    refine hi.perm ?_
    rw [List.append_assoc]
    exact List.Perm.refl _

theorem partition_new (filename : String) (r : CreateResult) (n : Nat) :
    (LogWritter.new filename r n).pool.Partition := by
  refine ⟨[], List.nodup_nil, fun t => ?_, ?_⟩
  · simp [LogWritter.pool, LogWritter.new, WriterPc.buf]
  · simp [LogWritter.pool, LogWritter.new, LogWritter.unwritten, LoggerAllocator.new, AsyncPc.rest]

/-! ## The property -/

/-- The partition of the buffers, and what follows from it. -/
structure Owned (s : LogWritter) : Prop where
  partition : Shared (List.range MAX_LOG_ENTRY) (s.alloc.freelist ++ s.unwritten) (WriterPc.buf ∘ s.writers)
  bound : ∀ L : List Tid, L.Nodup → (∀ t ∈ L, (s.writers t).buf.isSome = true) →
    L.length + s.async.rest.length + s.memtable.length ≤ MAX_LOG_ENTRY
  /-- asyncRun exits when every record pushed so far is flushed. -/
  exit : ∀ s', s.step .iterate = some s' → s'.async = .exited → s'.flushed_log_index = s'.pushed.length
  /-- As long as none is pushed after the exit, all buffers are free once nobody is in `writeLog`. -/
  returned : s.async = .exited → s.flushed_log_index = s.pushed.length → (∀ t, s.writers t = .idle) →
    s.alloc.freelist.Perm (List.range MAX_LOG_ENTRY)

/-- When every push is flushed and no batch is running, no entry is left. -/
theorem Accounted.memtable_nil {p : Pipe} (hi : Accounted p) (ht : p.async.table = [])
    (h : p.flushed_log_index = p.pushed.length) : p.memtable = [] := by
  have hq := hi.queue
  rw [h, List.drop_length, ht, List.nil_append] at hq
  exact hq.symm

theorem flushed_of_exit (hi : Accounted s.pipe) (hs : s.step .iterate = some s') (he : s'.async = .exited) :
    s'.flushed_log_index = s'.pushed.length := by
  have hle : s.flushed_log_index ≤ s.pushed.length := hi.le
  have hq : s.pushed.drop s.flushed_log_index = s.async.table ++ s.memtable := hi.queue
  cases step_did hs with
  | iterate hpc =>
    rcases iterate_cases s with ⟨-, -, h⟩ | ⟨-, -, -, h⟩ | ⟨-, hm, h⟩ | ⟨-, h⟩ <;> rw [h] at he ⊢
    · simp at he
    · rw [show s.async = .top from hpc] at he
      simp at he
    · rw [hpc, hm] at hq
      have hlen := List.drop_eq_nil_iff.mp hq
      exact Nat.le_antisymm hle hlen
    · simp at he

theorem owned_of_partition (hi : Accounted s.pipe) (h : s.pool.Partition) : Owned s where
  partition := h
  bound L hL hs := by
    have hb := Shared.bound h hL hs
    simp only [LogWritter.pool, LogWritter.unwritten, List.length_append, List.length_map,
      List.length_range] at hb
    omega
  exit s' hs he := flushed_of_exit hi hs he
  returned he hf hw := by
    have hm : s.memtable = [] := hi.memtable_nil (show s.async.table = [] by rw [he]; rfl) hf
    have hall := Shared.all_of_none h fun t => by simp [LogWritter.pool, hw t, WriterPc.buf]
    simpa [LogWritter.pool, LogWritter.unwritten, he, hm, AsyncPc.rest] using hall

/-- **Every buffer is in one place**, in every run in which `write` is called by `writeLog` only. -/
theorem owned_always (filename : String) (r : CreateResult) (n : Nat) {acts : List Act}
    (hd : ∀ a ∈ acts, a.direct = false) : Always logger Owned (.new filename r n) acts := by
  refine always_of_stepsOk (I := fun s => Reach logger s ∧ s.pool.Partition)
    ?_ ?_ ⟨.init ⟨filename, r, n, rfl⟩, partition_new filename r n⟩ (stepsOk_of_forall hd _)
  · rintro s ⟨hr, hp⟩
    exact owned_of_partition (reach_accounted hr) hp
  · rintro s a s' ⟨hr, hp⟩ hok hs
    exact ⟨hr.step hs, partition_step hp (step_pool (misslog_len_eq_zero hr) hok hs)⟩

/-! ## A record pushed after the exit -/

/-- The logging thread whose code the action runs. -/
def Act.actor : Act → Option Tid
  | .writeLog t _ | .allocate t | .miss t | .retry t | .retryMiss t | .format t _ _ | .write t _ _ _ _ | .wake t => some t
  | _ => none

theorem setWriter_writers_of_ne {t u : Tid} (h : u ≠ t) (pc : WriterPc) : (s.setWriter t pc).writers u = s.writers u :=
  Function.update_of_ne h _ _

theorem waitLoop_writers_of_ne {t u : Tid} (h : u ≠ t) (n : Nat) : (s.waitLoop t n).writers u = s.writers u := by
  rcases waitLoop_cases s t n with ⟨-, hw⟩ | ⟨-, hw⟩ <;> rw [hw]
  · exact setWriter_writers_of_ne h (.waiting n)
  · exact setWriter_writers_of_ne h .idle

theorem write_writers_of_ne {t u : Tid} {f : Bool} {m : Nat} {text : Text} {x : Waiter} (hu : u ≠ t)
    (h : s.write t f m text x = some s') : s'.writers u = s.writers u := by
  have hp : ((s.setWriter t .idle).push m text).writers u = s.writers u := setWriter_writers_of_ne hu .idle
  rw [← hp]
  rcases write_cases h with ⟨-, rfl⟩ | ⟨-, rfl⟩ | ⟨-, rfl | rfl | ⟨-, hn⟩⟩
  · rfl
  · exact waitLoop_writers_of_ne hu _
  · rfl
  · rfl
  · rcases notifyOne_cases hn with ⟨-, rfl⟩ | ⟨-, rfl⟩ <;> rfl

/-- A thread stays where it is while others act. -/
theorem step_writers_of_ne {u : Tid} (hu : a.actor ≠ some u) (h : s.step a = some s') :
    s'.writers u = s.writers u := by
  have ne : ∀ {t : Tid}, some t ≠ some u → u ≠ t := fun h he => h (by rw [he])
  cases step_did h with
  | writeLog =>
    unfold LogWritter.writeLog
    split
    · rfl
    · exact setWriter_writers_of_ne (ne hu) _
  | allocate => unfold LogWritter.allocate; split <;> exact setWriter_writers_of_ne (ne hu) _
  | miss => unfold LogWritter.miss; split <;> exact setWriter_writers_of_ne (ne hu) _
  | retry => unfold LogWritter.retry; split <;> exact setWriter_writers_of_ne (ne hu) _
  | retryMiss => exact setWriter_writers_of_ne (ne hu) .idle
  | format _ _ h => exact write_writers_of_ne (ne hu) h
  | write _ _ h => exact write_writers_of_ne (ne hu) h
  | wake => exact waitLoop_writers_of_ne (ne hu) _
  | spurious => rfl
  | lock => rfl
  | iterate =>
    rcases iterate_cases s with ⟨-, -, h⟩ | ⟨-, -, -, h⟩ | ⟨-, -, h⟩ | ⟨-, h⟩ <;> rw [h]
    unfold LogWritter.prepareReport
    split <;> rfl
  | writeEntry _ h =>
    rcases writeEntry_cases h with ⟨-, rfl⟩ | ⟨e, rest, -, -, w, ⟨-, rfl⟩ | ⟨-, rfl⟩⟩ <;> rfl
  | flush => unfold LogWritter.flush LogWritter.writeReport; split <;> rfl
  | @update b _ _ _ h =>
    rw [← (endBatch_frame s b).1]
    rcases update_cases h with ⟨-, hn⟩ | ⟨-, rfl⟩ | ⟨-, rfl⟩
    · rcases notifyOne_cases hn with ⟨-, rfl⟩ | ⟨-, rfl⟩ <;> rfl
    · rfl
    · rfl
  | setLogLevel => rfl
  | setSyncLoglevel => split <;> rfl
  | setFileRotateSize => rfl
  | stop => rfl

theorem exec_writers_of_ne {u : Tid} {acts : List Act} (hu : ∀ a ∈ acts, a.actor ≠ some u)
    (h : logger.exec s acts = some s') : s'.writers u = s.writers u := by
  induction acts generalizing s with
  | nil =>
    cases h
    rfl
  | cons a acts ih =>
    obtain ⟨s1, h1, h2⟩ := Option.bind_eq_some_iff.mp h
    rw [ih (fun b hb => hu b (List.mem_cons_of_mem _ hb)) h2]
    exact step_writers_of_ne (hu a List.mem_cons_self) h1

/-- A thread formats its record while the logger is stopped, and pushes it after asyncRun has exited. -/
def lateRun : List Act := [.writeLog 0 1, .allocate 0, .stop, .lock, .iterate, .format 0 ['a'] .async]

theorem lateRun_owned : Always logger Owned start lateRun :=
  owned_always _ _ _ (by decide)

theorem lateRun_keeps_buffer : ∃ s, logger.exec start lateRun = some s ∧ s.async = .exited ∧
    (∀ t, s.writers t = .idle) ∧ ¬ s.alloc.freelist.Perm (List.range MAX_LOG_ENTRY) := by
  have hrun : (logger.exec start lateRun).map (fun s => (s.async, s.writers 0, s.alloc.freelist.length)) =
      some (.exited, .idle, 2047) := by decide +kernel
  obtain ⟨s, hs, hv⟩ := Option.map_eq_some_iff.mp hrun
  simp only [Prod.mk.injEq] at hv
  obtain ⟨hasync, hzero, hlen⟩ := hv
  refine ⟨s, hs, hasync, fun t => ?_, fun hp => ?_⟩
  · by_cases ht : t = 0
    · rw [ht, hzero]
    · have hact : ∀ a ∈ lateRun, a.actor ≠ some t := by
        intro a ha
        simp only [lateRun, List.mem_cons, List.not_mem_nil, or_false] at ha
        rcases ha with rfl | rfl | rfl | rfl | rfl | rfl <;> simp [Act.actor, Ne.symm ht]
      rw [exec_writers_of_ne hact hs]
      rfl
  · have := hp.length_eq
    rw [hlen, List.length_range] at this
    exact absurd this (by decide)

end BeanRaft.Logger
