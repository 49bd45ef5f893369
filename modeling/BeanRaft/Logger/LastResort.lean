import BeanRaft.Logger.Buffers

/-!
# BeanRaft.Logger.LastResort — when is an important record dropped?

The logger with a history of each call of `writeLog`, while the two levels stay as they are.

* `WriteCall`: what a call has done so far.  `Turn`: what one action does to the call of its thread.
* `WriteCall.LastResort`: the call has pushed its record, or it has dropped it after eleven NULLs and ten sleeps.
* `lastResort_iff`: a NULL in the retry loop ends the call.  So this holds of every important call, and of those that
  are about to return, if and only if every retry finds a free buffer.
-/

namespace BeanRaft.Logger

open Lts CInt

/-! ## The calls of writeLog -/

/-- A call of `writeLog`, and what it has done so far. -/
structure WriteCall where
  level : Int
  /-- Results of `allocate` that were NULL. -/
  nulls : Nat
  sleeps : Nat
  /-- Steps that changed `miss_logs`. -/
  misses : Nat
  /-- Entries put on `memtable`. -/
  pushes : Nat
  deriving DecidableEq, Repr

def WriteCall.new (level : Int) : WriteCall := ⟨level, 0, 0, 0, 0⟩

def Act.allocates : Act → Bool
  | .allocate _ | .retry _ => true
  | _ => false

/-- A retry comes after a sleep. -/
def Act.sleeps : Act → Bool
  | .retry _ => true
  | _ => false

def Act.setsLevel : Act → Bool
  | .setLogLevel _ | .setSyncLoglevel _ => true
  | _ => false

/-- The call after one of its actions. -/
def WriteCall.after (c : WriteCall) (s s' : LogWritter) (a : Act) : WriteCall where
  level := c.level
  nulls := c.nulls + if a.allocates = true ∧ s.alloc.freelist = [] then 1 else 0
  sleeps := c.sleeps + if a.sleeps = true then 1 else 0
  misses := c.misses + if s'.miss_logs = s.miss_logs then 0 else 1
  pushes := c.pushes + (s'.memtable.length - s.memtable.length)

/-- The logger, the calls of `writeLog` in progress, and those that have returned. -/
structure Watched where
  log : LogWritter
  calls : Tid → Option WriteCall
  returned : List WriteCall

namespace Watched

variable (s : Watched)

/-- The call that the action of the thread belongs to; a direct call of `write` belongs to none. -/
def call (t : Tid) : Act → Option WriteCall
  | .writeLog _ level => some (.new level)
  | _ => s.calls t

def next (a : Act) (log : LogWritter) : Watched :=
  match a.actor with
  | none => { s with log := log }
  | some t =>
    let call := (s.call t a).map fun c => c.after s.log log a
    if log.writers t = .idle then ⟨log, Function.update s.calls t none, s.returned ++ call.toList⟩
    else ⟨log, Function.update s.calls t call, s.returned⟩

/-- The levels are not set during a run. -/
def step (a : Act) : Option Watched :=
  if a.setsLevel = true then none else (s.log.step a).map (s.next a)

/-- A new logger with any two levels. -/
def start (filename : String) (r : CreateResult) (max_file_size : Nat) (loglevel sync_loglevel : Int) : Watched :=
  ⟨{ LogWritter.new filename r max_file_size with loglevel := loglevel, sync_loglevel := sync_loglevel },
    fun _ => none, []⟩

end Watched

def watchedLogger : System Watched Act where
  init s := ∃ filename r max_file_size loglevel sync_loglevel,
    s = .start filename r max_file_size loglevel sync_loglevel
  step := Watched.step

/-! ## The property and its condition -/

/-- A level that is not below any of the two. -/
def LogWritter.important (s : LogWritter) (level : Int) : Prop := s.loglevel ≤ level ∧ s.sync_loglevel ≤ level

/-- The record was pushed; or the first attempt and ten retries found no buffer, and the drop was counted. -/
def WriteCall.LastResort (c : WriteCall) : Prop :=
  c.pushes = 1 ∧ c.misses = 0 ∨ c.pushes = 0 ∧ c.misses = 1 ∧ c.nulls = 11 ∧ c.sleeps = 10

/-- Important records are dropped as a last resort only; a call at line 385 is about to drop its record. -/
structure LastResortOnly (s : Watched) : Prop where
  returned : ∀ c ∈ s.returned, s.log.important c.level → c.LastResort
  givingUp : ∀ t c, s.calls t = some c → s.log.writers t = .retryMissed → s.log.important c.level →
    c.nulls = 11 ∧ c.sleeps = 10

/-- A retry finds a free buffer. -/
def RetryOk (s : Watched) : Act → Prop
  | .retry _ => s.log.alloc.freelist ≠ []
  | _ => True

section Turns

variable {s s' : LogWritter} {a : Act} {t : Tid}

/-! ## What an action does to the call of its thread -/

/-- No record is counted as missed, and none is pushed. -/
def Quiet (s s' : LogWritter) : Prop := s'.miss_logs = s.miss_logs ∧ s'.memtable = s.memtable

/-- The thread is outside `writeLog` and `write`, or in the wait loop of `write`. -/
def Done (s : LogWritter) (t : Tid) : Prop := s.writers t = .idle ∨ ∃ n, s.writers t = .waiting n

/-- The sections of `writeLog`, and of `write`. -/
inductive Turn (s s' : LogWritter) (t : Tid) : Act → Prop
  | refused {level : Int} (hlow : level < s.loglevel) (hpc' : s'.writers t = .idle) : Turn s s' t (.writeLog t level)
  | entered {level : Int} {f : Bool} (hle : s.loglevel ≤ level) (hpc' : s'.writers t = .allocating level f)
    (hq : Quiet s s') : Turn s s' t (.writeLog t level)
  | taken {level : Int} {f : Bool} {buf : Nat} (hpc : s.writers t = .allocating level f) (hfree : s.alloc.freelist ≠ [])
    (hpc' : s'.writers t = .formatting buf f) (hq : Quiet s s') : Turn s s' t (.allocate t)
  | null {level : Int} {f : Bool} (hpc : s.writers t = .allocating level f) (hfree : s.alloc.freelist = [])
    (hpc' : s'.writers t = .missed level f) (hq : Quiet s s') : Turn s s' t (.allocate t)
  | discarded {level : Int} {f : Bool} (hpc : s.writers t = .missed level f) (hlow : level < s.sync_loglevel)
    (hpc' : s'.writers t = .idle) : Turn s s' t (.miss t)
  | goesOn {level : Int} {f : Bool} (hpc : s.writers t = .missed level f) (hle : s.sync_loglevel ≤ level)
    (hpc' : s'.writers t = .retrying f) (hq : Quiet s s') : Turn s s' t (.miss t)
  | retried {f : Bool} {buf : Nat} (hpc : s.writers t = .retrying f) (hfree : s.alloc.freelist ≠ [])
    (hpc' : s'.writers t = .formatting buf f) (hq : Quiet s s') : Turn s s' t (.retry t)
  | retryNull {f : Bool} (hpc : s.writers t = .retrying f) (hfree : s.alloc.freelist = [])
    (hpc' : s'.writers t = .retryMissed) (hq : Quiet s s') : Turn s s' t (.retry t)
  | gaveUp (hpc : s.writers t = .retryMissed) : Turn s s' t (.retryMiss t)
  | pushed {buf : Nat} {f : Bool} {text : Text} {x : Waiter} (hpc : s.writers t = .formatting buf f)
    (hpc' : Done s' t) (hmiss : s'.miss_logs = s.miss_logs) (hmem : s'.memtable.length = s.memtable.length + 1) :
    Turn s s' t (.format t text x)
  | direct {f : Bool} {m : Nat} {text : Text} {x : Waiter} (hpc : s.writers t = .idle) (hpc' : Done s' t) :
    Turn s s' t (.write t f m text x)
  | woken {n : Nat} (hpc : s.writers t = .waiting n) (hpc' : Done s' t) (hq : Quiet s s') : Turn s s' t (.wake t)

theorem setWriter_self (s : LogWritter) (t : Tid) (pc : WriterPc) : (s.setWriter t pc).writers t = pc :=
  Function.update_self _ _ _

theorem waitLoop_done (s : LogWritter) (t : Tid) (n : Nat) : Done (s.waitLoop t n) t := by
  rcases waitLoop_cases s t n with ⟨-, h⟩ | ⟨-, h⟩
  · rw [h]
    exact .inr ⟨n, setWriter_self s t (.waiting n)⟩
  · rw [h]
    exact .inl (setWriter_self s t .idle)

theorem waitLoop_memtable (s : LogWritter) (t : Tid) (n : Nat) : (s.waitLoop t n).memtable = s.memtable :=
  congrArg Pipe.memtable (waitLoop_pipe t n)

theorem waitLoop_quiet (s : LogWritter) (t : Tid) (n : Nat) : Quiet s (s.waitLoop t n) :=
  ⟨congrArg Misses.miss_logs (waitLoop_misses t n), waitLoop_memtable s t n⟩

/-- `write` puts one entry on `memtable`, and returns or waits. -/
theorem write_turn {f : Bool} {m : Nat} {text : Text} {x : Waiter} (h : s.write t f m text x = some s') :
    Done s' t ∧ s'.miss_logs = s.miss_logs ∧ s'.memtable.length = s.memtable.length + 1 := by
  have hmiss : s'.miss_logs = s.miss_logs := congrArg Misses.miss_logs (write_misses h)
  have hidle : ((s.setWriter t .idle).push m text).writers t = .idle := setWriter_self s t .idle
  have hlen : ((s.setWriter t .idle).push m text).memtable.length = s.memtable.length + 1 := List.length_append
  rcases write_cases h with ⟨-, rfl⟩ | ⟨-, rfl⟩ | ⟨-, rfl | rfl | ⟨-, hn⟩⟩
  · exact ⟨.inl hidle, hmiss, hlen⟩
  · refine ⟨waitLoop_done _ t _, hmiss, ?_⟩
    rw [waitLoop_memtable]
    exact hlen
  · exact ⟨.inl hidle, hmiss, hlen⟩
  · exact ⟨.inl hidle, hmiss, hlen⟩
  · rcases notifyOne_cases hn with ⟨-, rfl⟩ | ⟨-, rfl⟩ <;> exact ⟨.inl hidle, hmiss, hlen⟩

/-- Every action of a thread is one of these turns. -/
theorem step_turn (ht : a.actor = some t) (h : s.step a = some s') : Turn s s' t a := by
  cases step_did h with
  | @writeLog _ level _ hpc =>
    obtain rfl := Option.some.inj ht
    unfold LogWritter.writeLog
    split_ifs with hlow
    · exact .refused hlow hpc
    · exact .entered (Int.not_lt.mp hlow) (setWriter_self s _ _) ⟨rfl, rfl⟩
  | allocate hpc =>
    obtain rfl := Option.some.inj ht
    unfold LogWritter.allocate LoggerAllocator.allocate
    cases hfree : s.alloc.freelist with
    | nil => exact .null hpc hfree (setWriter_self s _ _) ⟨rfl, rfl⟩
    | cons buf bufs => exact .taken hpc (by rw [hfree]; exact List.cons_ne_nil _ _) (setWriter_self s _ (.formatting buf _)) ⟨rfl, rfl⟩
  | miss _ hpc =>
    obtain rfl := Option.some.inj ht
    unfold LogWritter.miss
    split_ifs with hlow
    · exact .discarded hpc hlow (setWriter_self s _ .idle)
    · exact .goesOn hpc (Int.not_lt.mp hlow) (setWriter_self s _ _) ⟨rfl, rfl⟩
  | retry hpc =>
    obtain rfl := Option.some.inj ht
    unfold LogWritter.retry LoggerAllocator.allocate
    cases hfree : s.alloc.freelist with
    | nil => exact .retryNull hpc hfree (setWriter_self s _ _) ⟨rfl, rfl⟩
    | cons buf bufs => exact .retried hpc (by rw [hfree]; exact List.cons_ne_nil _ _) (setWriter_self s _ (.formatting buf _)) ⟨rfl, rfl⟩
  | retryMiss _ hpc =>
    obtain rfl := Option.some.inj ht
    exact .gaveUp hpc
  | format _ hpc h =>
    obtain rfl := Option.some.inj ht
    obtain ⟨hdone, hmiss, hmem⟩ := write_turn h
    exact .pushed hpc hdone hmiss hmem
  | write _ hpc h =>
    obtain rfl := Option.some.inj ht
    exact .direct hpc (write_turn h).1
  | wake _ hpc =>
    obtain rfl := Option.some.inj ht
    exact .woken hpc (waitLoop_done s _ _) (waitLoop_quiet s _ _)
  | spurious | lock | iterate | writeEntry | flush | update | setLogLevel | setSyncLoglevel | setFileRotateSize | stop =>
    cases ht

theorem notifyOne_levels {x : Waiter} (h : s.notifyOne x = some s') :
    s'.loglevel = s.loglevel ∧ s'.sync_loglevel = s.sync_loglevel := by
  rcases notifyOne_cases h with ⟨-, rfl⟩ | ⟨-, rfl⟩ <;> exact ⟨rfl, rfl⟩

theorem waitLoop_levels (s : LogWritter) (t : Tid) (n : Nat) :
    (s.waitLoop t n).loglevel = s.loglevel ∧ (s.waitLoop t n).sync_loglevel = s.sync_loglevel := by
  rcases waitLoop_cases s t n with ⟨-, h⟩ | ⟨-, h⟩ <;> rw [h] <;> exact ⟨rfl, rfl⟩

theorem write_levels {f : Bool} {m : Nat} {text : Text} {x : Waiter} (h : s.write t f m text x = some s') :
    s'.loglevel = s.loglevel ∧ s'.sync_loglevel = s.sync_loglevel := by
  rcases write_cases h with ⟨-, rfl⟩ | ⟨-, rfl⟩ | ⟨-, rfl | rfl | ⟨-, hn⟩⟩
  · exact ⟨rfl, rfl⟩
  · exact waitLoop_levels _ t _
  · exact ⟨rfl, rfl⟩
  · exact ⟨rfl, rfl⟩
  · have hnotify := notifyOne_levels hn
    exact hnotify

theorem endBatch_levels (s : LogWritter) (b : Batch) :
    (s.endBatch b).loglevel = s.loglevel ∧ (s.endBatch b).sync_loglevel = s.sync_loglevel := by
  unfold LogWritter.endBatch LogWritter.splice
  split <;> exact ⟨rfl, rfl⟩

/-- Only the setters change the levels. -/
theorem step_levels (ha : a.setsLevel = false) (h : s.step a = some s') :
    s'.loglevel = s.loglevel ∧ s'.sync_loglevel = s.sync_loglevel := by
  cases step_did h with
  | writeLog => unfold LogWritter.writeLog; split <;> exact ⟨rfl, rfl⟩
  | allocate => unfold LogWritter.allocate; split <;> exact ⟨rfl, rfl⟩
  | miss => unfold LogWritter.miss; split <;> exact ⟨rfl, rfl⟩
  | retry => unfold LogWritter.retry; split <;> exact ⟨rfl, rfl⟩
  | retryMiss => exact ⟨rfl, rfl⟩
  | format _ _ h => exact write_levels h
  | write _ _ h => exact write_levels h
  | wake => exact waitLoop_levels s _ _
  | iterate =>
    rcases iterate_cases s with ⟨-, -, h⟩ | ⟨-, -, -, h⟩ | ⟨-, -, h⟩ | ⟨-, h⟩ <;> rw [h] <;> try exact ⟨rfl, rfl⟩
    unfold LogWritter.prepareReport
    split <;> exact ⟨rfl, rfl⟩
  | writeEntry _ h =>
    rcases writeEntry_cases h with ⟨-, rfl⟩ | ⟨e, rest, -, -, w, ⟨-, rfl⟩ | ⟨-, rfl⟩⟩ <;> exact ⟨rfl, rfl⟩
  | flush => unfold LogWritter.flush LogWritter.writeReport; split <;> exact ⟨rfl, rfl⟩
  | @update b _ _ _ h =>
    rw [← (endBatch_levels s b).1, ← (endBatch_levels s b).2]
    rcases update_cases h with ⟨-, hn⟩ | ⟨-, rfl⟩ | ⟨-, rfl⟩
    · exact notifyOne_levels hn
    · exact ⟨rfl, rfl⟩
    · exact ⟨rfl, rfl⟩
  | setLogLevel | setSyncLoglevel => cases ha
  | spurious | lock | setFileRotateSize | stop => exact ⟨rfl, rfl⟩

end Turns

section Calls

variable {s s' : Watched} {a : Act} {t : Tid}

/-! ## What a step keeps -/

/-- What a call has done when its thread is there, while no retry finds NULL. -/
def InCall (log : LogWritter) : WriterPc → Option WriteCall → Prop
  | .idle, c => c = none
  | .allocating level _, c => log.loglevel ≤ level ∧ c = some (.new level)
  | .missed level _, c => log.loglevel ≤ level ∧ c = some ⟨level, 1, 0, 0, 0⟩
  | .retrying _, c => ∃ level, log.important level ∧ c = some ⟨level, 1, 0, 0, 0⟩
  | .retryMissed, _ => False
  | .formatting _ _, c => ∃ call, c = some call ∧ call.misses = 0 ∧ call.pushes = 0
  | .waiting _, c => ∀ call, c = some call → call.misses = 0 ∧ call.pushes = 1

/-- No important call has missed its record. -/
structure Watched.Kept (s : Watched) : Prop where
  calls : ∀ t, InCall s.log (s.log.writers t) (s.calls t)
  returned : ∀ c ∈ s.returned, s.log.important c.level → c.pushes = 1 ∧ c.misses = 0

theorem Watched.Kept.lastResortOnly (h : s.Kept) : LastResortOnly s := by
  refine ⟨fun c hc hi => .inl (h.returned c hc hi), fun t c hc hpc => ?_⟩
  have hin := h.calls t
  rw [hpc] at hin
  exact hin.elim

theorem Watched.kept_start (filename : String) (r : CreateResult) (n : Nat) (l sl : Int) :
    (Watched.start filename r n l sl).Kept :=
  ⟨fun _ => rfl, fun c hc => by cases hc⟩

theorem InCall.congr {log log' : LogWritter} {pc : WriterPc} {c : Option WriteCall} (h : InCall log pc c)
    (hl : log'.loglevel = log.loglevel ∧ log'.sync_loglevel = log.sync_loglevel) : InCall log' pc c := by
  unfold InCall LogWritter.important at h ⊢
  rw [hl.1, hl.2]
  exact h

/-- The call of the thread after its turn: it goes on, or it has returned. -/
def CallAfter (log' : LogWritter) (t : Tid) (c : Option WriteCall) : Prop :=
  (log'.writers t ≠ .idle ∧ InCall log' (log'.writers t) c) ∨
    (log'.writers t = .idle ∧ ∀ call, c = some call → log'.important call.level → call.pushes = 1 ∧ call.misses = 0)

/-- A quiet action counts its NULL and its sleep only. -/
theorem after_quiet {c : WriteCall} {log log' : LogWritter} (hq : Quiet log log') : c.after log log' a =
    { c with
      nulls := c.nulls + if a.allocates = true ∧ log.alloc.freelist = [] then 1 else 0
      sleeps := c.sleeps + if a.sleeps = true then 1 else 0 } := by
  unfold WriteCall.after
  rw [hq.1, hq.2, if_pos rfl, Nat.sub_self]
  rfl

theorem CallAfter.goesOn {log' : LogWritter} {pc : WriterPc} {c : Option WriteCall} (hpc : log'.writers t = pc)
    (hne : pc ≠ .idle) (hin : InCall log' pc c) : CallAfter log' t c := by
  refine .inl ⟨by rw [hpc]; exact hne, ?_⟩
  rw [hpc]
  exact hin

/-- A record that was pushed is not missed any more, when its thread waits, too. -/
theorem CallAfter.done {log' : LogWritter} {c : Option WriteCall} (hd : Done log' t)
    (h : ∀ call, c = some call → call.misses = 0 ∧ call.pushes = 1) : CallAfter log' t c := by
  rcases hd with hidle | ⟨n, hwait⟩
  · exact .inr ⟨hidle, fun call hcall _ => (h call hcall).symm⟩
  · exact .goesOn hwait nofun h

theorem callAfter {log' : LogWritter} (hk : s.Kept) (hok : RetryOk s a) (ht : a.actor = some t)
    (hlevels : log'.loglevel = s.log.loglevel ∧ log'.sync_loglevel = s.log.sync_loglevel)
    (h : s.log.step a = some log') : CallAfter log' t ((s.call t a).map fun c => c.after s.log log' a) := by
  have hin := (hk.calls t).congr hlevels
  cases step_turn ht h with
  | @refused level hlow hpc' =>
    refine .inr ⟨hpc', fun call hcall himp => ?_⟩
    obtain rfl := Option.some.inj hcall
    have hle : log'.loglevel ≤ level := himp.1
    rw [hlevels.1] at hle
    exact absurd hlow (Int.not_lt.mpr hle)
  | @entered level f hle hpc' hq =>
    refine .goesOn hpc' nofun ⟨by rw [hlevels.1]; exact hle, ?_⟩
    show some (WriteCall.after (.new level) s.log log' (.writeLog t level)) = _
    rw [after_quiet hq]
    rfl
  | @taken level f buf hpc hfree hpc' hq =>
    rw [hpc] at hin
    refine .goesOn hpc' nofun ⟨.new level, ?_, rfl, rfl⟩
    show (s.calls t).map _ = _
    rw [hin.2, Option.map_some, after_quiet hq, if_neg fun h => hfree h.2]
    rfl
  | @null level f hpc hfree hpc' hq =>
    rw [hpc] at hin
    refine .goesOn hpc' nofun ⟨hin.1, ?_⟩
    show (s.calls t).map _ = _
    rw [hin.2, Option.map_some, after_quiet hq, if_pos ⟨rfl, hfree⟩]
    rfl
  | @discarded level f hpc hlow hpc' =>
    rw [hpc] at hin
    refine .inr ⟨hpc', fun call hcall himp => ?_⟩
    have hcall' : (s.calls t).map (fun c => c.after s.log log' (.miss t)) = some call := hcall
    rw [hin.2] at hcall'
    obtain rfl := Option.some.inj hcall'
    have hle : log'.sync_loglevel ≤ level := himp.2
    rw [hlevels.2] at hle
    exact absurd hlow (Int.not_lt.mpr hle)
  | @goesOn level f hpc hle hpc' hq =>
    rw [hpc] at hin
    refine .goesOn hpc' nofun ⟨level, ⟨hin.1, by rw [hlevels.2]; exact hle⟩, ?_⟩
    show (s.calls t).map _ = _
    rw [hin.2, Option.map_some, after_quiet hq]
    rfl
  | @retried f buf hpc hfree hpc' hq =>
    rw [hpc] at hin
    obtain ⟨level, -, hcall⟩ := hin
    refine .goesOn hpc' nofun ⟨⟨level, 1, 1, 0, 0⟩, ?_, rfl, rfl⟩
    show (s.calls t).map _ = _
    rw [hcall, Option.map_some, after_quiet hq, if_neg fun h => hfree h.2]
    rfl
  | retryNull hpc hfree => exact absurd hfree hok
  | gaveUp hpc =>
    rw [hpc] at hin
    exact hin.elim
  | @pushed buf f text x hpc hpc' hmiss hmem =>
    rw [hpc] at hin
    obtain ⟨c, hc, hc1, hc2⟩ := hin
    have hafter : (c.after s.log log' (.format t text x)).misses = 0 ∧
        (c.after s.log log' (.format t text x)).pushes = 1 := by
      unfold WriteCall.after
      dsimp only
      rw [hmiss, hmem, if_pos rfl]
      omega
    have hcalls : (s.call t (.format t text x)).map (fun c => c.after s.log log' (.format t text x)) =
        some (c.after s.log log' (.format t text x)) := by
      show (s.calls t).map _ = _
      rw [hc]
      rfl
    rw [hcalls]
    refine .done hpc' fun call hcall => ?_
    obtain rfl := Option.some.inj hcall
    exact hafter
  | @direct f m text x hpc hpc' =>
    rw [hpc] at hin
    have hcalls : (s.call t (.write t f m text x)).map (fun c => c.after s.log log' (.write t f m text x)) = none := by
      show (s.calls t).map _ = _
      rw [show s.calls t = none from hin]
      rfl
    rw [hcalls]
    exact .done hpc' nofun
  | @woken n hpc hpc' hq =>
    rw [hpc] at hin
    refine .done hpc' fun call hcall => ?_
    obtain ⟨c, hc, rfl⟩ := Option.map_eq_some_iff.mp hcall
    rw [after_quiet hq]
    exact hin c hc

/-- A call that has returned is on the list, the others are in progress. -/
theorem Watched.Kept.next {log' : LogWritter} (hk : s.Kept) (hok : RetryOk s a) (ha : a.setsLevel = false)
    (h : s.log.step a = some log') : (s.next a log').Kept := by
  have hlevels := step_levels ha h
  have himp : ∀ level, log'.important level ↔ s.log.important level := by
    intro level
    unfold LogWritter.important
    rw [hlevels.1, hlevels.2]
  have hold : ∀ c ∈ s.returned, log'.important c.level → c.pushes = 1 ∧ c.misses = 0 :=
    fun c hc hi => hk.returned c hc ((himp c.level).mp hi)
  unfold Watched.next
  cases ht : a.actor with
  | none =>
    refine ⟨fun u => ?_, hold⟩
    show InCall log' (log'.writers u) (s.calls u)
    rw [step_writers_of_ne (u := u) (by rw [ht]; simp) h]
    exact (hk.calls u).congr hlevels
  | some t =>
    have hothers : ∀ u, u ≠ t → InCall log' (log'.writers u) (s.calls u) := by
      intro u hu
      rw [step_writers_of_ne (u := u) (by rw [ht]; simpa using Ne.symm hu) h]
      exact (hk.calls u).congr hlevels
    have hafter := callAfter hk hok ht hlevels h
    dsimp only
    generalize (s.call t a).map (fun c => c.after s.log log' a) = call at hafter ⊢
    rcases hafter with ⟨hpc, hin⟩ | ⟨hpc, hret⟩
    · rw [if_neg hpc]
      refine ⟨fun u => ?_, hold⟩
      show InCall log' (log'.writers u) (Function.update s.calls t call u)
      by_cases hu : u = t
      · rw [hu, Function.update_self]
        exact hin
      · rw [Function.update_of_ne hu]
        exact hothers u hu
    · rw [if_pos hpc]
      refine ⟨fun u => ?_, fun c hc hi => ?_⟩
      · show InCall log' (log'.writers u) (Function.update s.calls t none u)
        by_cases hu : u = t
        · rw [hu, Function.update_self, hpc]
          rfl
        · rw [Function.update_of_ne hu]
          exact hothers u hu
      · rcases List.mem_append.mp hc with hc | hc
        · exact hold c hc hi
        · exact hret c (Option.mem_toList.mp hc) hi

theorem Watched.Kept.step (hk : s.Kept) (hok : RetryOk s a) (h : s.step a = some s') : s'.Kept := by
  unfold Watched.step at h
  split_ifs at h with ha
  obtain ⟨log', hlog, rfl⟩ := Option.map_eq_some_iff.mp h
  exact hk.next hok (Bool.eq_false_iff.mpr ha) hlog

/-- A NULL in the retry loop: the call is about to return, after two NULLs. -/
theorem Watched.Kept.bad (hk : s.Kept) (hno : ¬ RetryOk s a) (h : s.step a = some s') : ¬ LastResortOnly s' := by
  unfold Watched.step at h
  split_ifs at h with ha
  obtain ⟨log', hlog, rfl⟩ := Option.map_eq_some_iff.mp h
  have hlevels := step_levels (Bool.eq_false_iff.mpr ha) hlog
  cases a with
  | retry t =>
    have hfree : s.log.alloc.freelist = [] := not_not.mp hno
    have hin := hk.calls t
    cases step_turn rfl hlog with
    | retried _ hsome => exact absurd hfree hsome
    | @retryNull f hpc _ hpc' hq =>
      rw [hpc] at hin
      obtain ⟨level, himp, hcall⟩ := hin
      have hnext : s.next (.retry t) log' = ⟨log', Function.update s.calls t (some ⟨level, 2, 1, 0, 0⟩), s.returned⟩ := by
        have hmap : (s.call t (.retry t)).map (fun c => c.after s.log log' (.retry t)) = some ⟨level, 2, 1, 0, 0⟩ := by
          show (s.calls t).map _ = _
          rw [hcall, Option.map_some, after_quiet hq, if_pos ⟨rfl, hfree⟩]
          rfl
        show (if log'.writers t = .idle then _ else _) = _
        rw [if_neg (by rw [hpc']; simp), hmap]
      intro hlast
      rw [hnext] at hlast
      have hself : Function.update s.calls t (some (⟨level, 2, 1, 0, 0⟩ : WriteCall)) t = some ⟨level, 2, 1, 0, 0⟩ :=
        Function.update_self _ _ _
      have himp' : log'.important level := by
        unfold LogWritter.important
        rw [hlevels.1, hlevels.2]
        exact himp
      have hnulls : 2 = 11 := (hlast.givingUp t _ hself hpc' himp').1
      omega
  | writeLog | allocate | miss | retryMiss | format | write | wake | spurious | lock | iterate | writeEntry | flush
    | update | setLogLevel | setSyncLoglevel | setFileRotateSize | stop => exact absurd trivial hno

/-- **Important records are dropped as a last resort only**, in every state of a run, if and only if every retry finds a
free buffer. -/
theorem lastResort_iff (filename : String) (r : CreateResult) (n : Nat) (loglevel sync_loglevel : Int) (acts : List Act) :
    Always watchedLogger LastResortOnly (.start filename r n loglevel sync_loglevel) acts ↔
      StepsOk watchedLogger RetryOk (.start filename r n loglevel sync_loglevel) acts :=
  always_iff_stepsOk (fun _ hk => hk.lastResortOnly) (fun _ _ _ hk hok hs => hk.step hok hs)
    (fun _ _ _ hk hno hs => hk.bad hno hs) (Watched.kept_start filename r n loglevel sync_loglevel) acts

/-! ## A record dropped after one retry -/

theorem exec_watched {acts : List Act} {log' : LogWritter} (hset : ∀ a ∈ acts, a.setsLevel = false)
    (h : logger.exec s.log acts = some log') : ∃ s', watchedLogger.exec s acts = some s' ∧ s'.log = log' := by
  induction acts generalizing s with
  | nil => exact ⟨s, rfl, Option.some.inj h⟩
  | cons a acts ih =>
    obtain ⟨log1, h1, h2⟩ := Option.bind_eq_some_iff.mp h
    have hlog : (s.next a log1).log = log1 := by
      unfold Watched.next
      split
      · rfl
      · dsimp only
        split_ifs <;> rfl
    have hstep : s.step a = some (s.next a log1) := by
      unfold Watched.step
      rw [if_neg (by rw [hset a List.mem_cons_self]; simp)]
      exact congrArg (Option.map (s.next a)) h1
    rw [← hlog] at h2
    obtain ⟨s', hs', hlog'⟩ := ih (fun b hb => hset b (List.mem_cons_of_mem _ hb)) h2
    refine ⟨s', ?_, hlog'⟩
    show (s.step a).bind _ = _
    rw [hstep]
    exact hs'

/-- One call of `writeLog` with the highest level, to its end. -/
def fatalLog : List Act := [.writeLog 0 LOG_FATAL, .allocate 0, .miss 0, .retry 0, .retryMiss 0]

/-- No buffer is free. -/
theorem exec_fatalLog (log : LogWritter) (calls : Tid → Option WriteCall) (returned : List WriteCall) (hmu : log.muFree)
    (hpc : log.writers 0 = .idle) (hfree : log.alloc.freelist = []) (himp : log.important LOG_FATAL)
    (hmiss : log.miss_logs = 0) : ∃ s', watchedLogger.exec ⟨log, calls, returned⟩ fatalLog = some s' ∧
      s'.returned = returned ++ [⟨LOG_FATAL, 2, 1, 1, 0⟩] ∧ s'.log.important LOG_FATAL := by
  have hmu' : log.async ≠ .top := hmu
  have hl : ¬ LOG_FATAL < log.loglevel := Int.not_lt.mpr himp.1
  have hsl : ¬ LOG_FATAL < log.sync_loglevel := Int.not_lt.mpr himp.2
  have hcount : int32 1 ≠ 0 := by decide
  simp [fatalLog, watchedLogger, Watched.step, Act.setsLevel, LogWritter.step, LogWritter.muFree, hmu', hpc,
    LogWritter.writeLog, hl, LogWritter.setWriter, LogWritter.allocate, LoggerAllocator.allocate, hfree, LogWritter.miss,
    hsl, LogWritter.retry, LogWritter.drop, Watched.next, Act.actor, Watched.call, WriteCall.new, WriteCall.after,
    Act.allocates, Act.sleeps, hmiss, hcount]
  exact himp

def fatalRun : List Act := (List.replicate MAX_LOG_ENTRY oneLog).flatten ++ fatalLog

/-- Every buffer is queued, and a record with the highest level finds none twice. -/
theorem fatalRun_not_lastResort : ¬ Always watchedLogger LastResortOnly
    (.start "log" (.created 100 0) DEFAULT_MAX_FILE_SIZE LOG_INFO LOG_FATAL) fatalRun := by
  have hstart : Watched.start "log" (.created 100 0) DEFAULT_MAX_FILE_SIZE LOG_INFO LOG_FATAL =
    ⟨start, fun _ => none, []⟩ := rfl
  rw [hstart]
  intro h
  have hfilled : logger.exec start (List.replicate MAX_LOG_ENTRY oneLog).flatten = some (filled MAX_LOG_ENTRY) :=
    exec_fill MAX_LOG_ENTRY (Nat.le_refl _)
  have hfill : ∀ a ∈ (List.replicate MAX_LOG_ENTRY oneLog).flatten, a.setsLevel = false := by
    intro a ha
    obtain ⟨l, hl, ha⟩ := List.mem_flatten.mp ha
    rw [List.eq_of_mem_replicate hl, oneLog] at ha
    simp only [List.mem_cons, List.not_mem_nil, or_false] at ha
    rcases ha with rfl | rfl | rfl <;> rfl
  obtain ⟨⟨log, calls, returned⟩, hs, hlog⟩ := exec_watched (s := ⟨start, fun _ => none, []⟩) hfill hfilled
  obtain rfl : log = filled MAX_LOG_ENTRY := hlog
  have hmu : (filled MAX_LOG_ENTRY).muFree := by
    show AsyncPc.waiting ≠ .top
    simp
  obtain ⟨s', hs', hret, himp⟩ := exec_fatalLog _ calls returned hmu rfl rfl ⟨by decide, by decide⟩ rfl
  have hrun : watchedLogger.exec ⟨start, fun _ => none, []⟩ fatalRun = some s' := by
    rw [fatalRun, exec_append, hs, Option.bind_some, hs']
  have hdropped := (h.exec hrun).returned ⟨LOG_FATAL, 2, 1, 1, 0⟩ (by rw [hret]; simp) himp
  rcases hdropped with ⟨hpushed, -⟩ | ⟨-, -, hnulls, -⟩
  · cases hpushed
  · cases hnulls

end Calls

end BeanRaft.Logger
