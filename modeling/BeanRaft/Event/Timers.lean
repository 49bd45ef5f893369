import BeanRaft.Lib.Lts
import BeanRaft.Lib.CInt

/-!
# BeanRaft.Event.Timers — the timers of the loop, and whether one is early

The timer half of the class `EventLoop`: `addTimerEvent`, `mstime` and `processTimeEvents`.

* `timer_events` is a list; the action names the element that `top()` returns, which is one with the largest `when`,
  as `timeEventCompare` orders the queue.
* `due` is history: the reading of the clock before which the timer must not be called, from the delay it was added
  with or the delay its last call returned.
* `NotEarly`: no timer is called at a reading below its `due`.  The code takes the reading itself for `when`, so this
  is kept as long as no delay is positive (`notEarly_of_noDelay`).
-/

namespace BeanRaft.Event

open Lts CInt

/-- `struct timeval`. -/
structure Timeval where
  tv_sec : Int
  tv_usec : Int
  deriving DecidableEq, Repr

/-- The time in milliseconds. -/
def Timeval.ms (tv : Timeval) : Int := tv.tv_sec * 1000 + tv.tv_usec / 1000

/-- A normalised time whose milliseconds fit in `int`. -/
def Timeval.Fits (tv : Timeval) : Prop := 0 ≤ tv.tv_sec ∧ 0 ≤ tv.tv_usec ∧ tv.tv_usec < 1000000 ∧ tv.ms ≤ INT_MAX

instance (tv : Timeval) : Decidable tv.Fits := inferInstanceAs (Decidable (_ ∧ _))

/-- `mstime` (`eventloop.cpp`, line 139), on a machine whose `int` wraps. -/
def mstime (tv : Timeval) : Int := int32 (int32 (int32 tv.tv_sec * 1000) + int32 (tv.tv_usec / 1000))

theorem mstime_eq {tv : Timeval} (h : tv.Fits) : mstime tv = tv.ms := by
  obtain ⟨h1, h2, h3, h4⟩ := h
  simp only [Timeval.ms, INT_MAX] at h4
  have husec : 0 ≤ tv.tv_usec / 1000 := by omega
  unfold mstime
  rw [int32_of_range (x := tv.tv_sec) (by omega) (by omega), int32_of_range (x := tv.tv_sec * 1000) (by omega) (by omega),
    int32_of_range (x := tv.tv_usec / 1000) (by omega) (by omega), int32_of_range (by omega) (by omega)]
  rfl

structure TimeEvent where
  when : Int
  fn : Nat
  client_data : Nat
  due : Int
  deriving DecidableEq, Repr

/-- Where `processTimeEvents` is. -/
inductive TimePc
  | idle
  /-- At the head of the loop (line 173), with `current_mstime`. -/
  | loop (current_mstime : Int)
  /-- In the callback of a timer that was taken from the queue. -/
  | calling (event : TimeEvent) (current_mstime : Int)
  /-- At the head of the loop of the clock-skew branch (line 157). -/
  | skew (new_timer_events : List TimeEvent)
  /-- In a callback of the clock-skew branch; its timer is still queued. -/
  | skewCalling (event : TimeEvent) (new_timer_events : List TimeEvent)
  deriving DecidableEq, Repr

structure Timers where
  timer_events : List TimeEvent
  last_time : Int
  pc : TimePc
  /-- The last reading of the clock, in milliseconds. -/
  clock : Int
  deriving DecidableEq, Repr

inductive TimeAct
  | addTimerEvent (millisecond : Int) (client_data fn : Nat) (tv : Timeval)
  /-- The call of `processTimeEvents`, with `time(NULL)` and the clock. -/
  | enter (now : Int) (tv : Timeval)
  /-- The next turn of the loop calls the `i`-th timer. -/
  | call (i : Nat)
  /-- The callback returns. -/
  | ret (ret : Int) (tv : Timeval)
  | leave
  deriving DecidableEq, Repr

/-- `top()` may return the `i`-th element: none has a larger `when`. -/
def IsTop (q : List TimeEvent) (e : TimeEvent) : Prop := ∀ e' ∈ q, e'.when ≤ e.when

instance (q : List TimeEvent) (e : TimeEvent) : Decidable (IsTop q e) := inferInstanceAs (Decidable (∀ e' ∈ q, _))

namespace Timers

variable (s : Timers)

/-- The clock may read `tv` next. -/
def Reads (tv : Timeval) : Prop := tv.Fits ∧ s.clock ≤ tv.ms

instance (tv : Timeval) : Decidable (s.Reads tv) := inferInstanceAs (Decidable (_ ∧ _))

/-- User code is running: the loop is outside `processTimeEvents`, or in a callback of it. -/
def userCode : Bool :=
  match s.pc with
  | .idle | .calling _ _ | .skewCalling _ _ => true
  | .loop _ | .skew _ => false

/-- `addTimerEvent` (line 29). -/
def addTimerEvent (millisecond : Int) (client_data fn : Nat) (tv : Timeval) : Timers :=
  let current_mstime := mstime tv
  { s with
    timer_events := s.timer_events ++ [⟨current_mstime, fn, client_data, current_mstime + millisecond⟩]
    clock := tv.ms }

/-- Lines 156-171: the branch for a clock that was set back, or the start of the loop. -/
def enter (now : Int) (tv : Timeval) : Timers :=
  if now < s.last_time then { s with pc := .skew [] }
  else { s with last_time := now, pc := .loop (mstime tv), clock := tv.ms }

/-- The head of a loop: `top()` is the `i`-th timer, and its callback is called.  The clock-skew branch does not take
it from the queue. -/
def call (i : Nat) : Option Timers :=
  s.timer_events[i]?.bind fun event =>
    if IsTop s.timer_events event then
      match s.pc with
      | .loop current_mstime =>
        if event.when ≤ current_mstime then
          some { s with timer_events := s.timer_events.eraseIdx i, pc := .calling event current_mstime }
        else none
      | .skew new_timer_events => some { s with pc := .skewCalling event new_timer_events }
      | _ => none
    else none

/-- The timer as it is queued again after its callback, called at the reading `u`, returned `ret`. -/
def rearm (event : TimeEvent) (u ret : Int) (tv : Timeval) : TimeEvent :=
  { event with when := mstime tv, due := if ret ≥ 0 then u + ret else event.due }

/-- A callback returns (lines 161-164 and 176-182). -/
def ret (r : Int) (tv : Timeval) : Option Timers :=
  match s.pc with
  | .calling event u =>
    some
      { s with
        timer_events := if r ≠ -1 then s.timer_events ++ [rearm event u r tv] else s.timer_events
        pc := .loop (mstime tv)
        clock := tv.ms }
  | .skewCalling event new_timer_events =>
    some { s with pc := .skew (if r ≠ -1 then new_timer_events ++ [event] else new_timer_events) }
  | _ => none

/-- The end of a loop. -/
def leave : Option Timers :=
  match s.pc with
  | .loop current_mstime =>
    if ∀ event ∈ s.timer_events, ¬ (IsTop s.timer_events event ∧ event.when ≤ current_mstime) then
      some { s with pc := .idle }
    else none
  | .skew new_timer_events =>
    if s.timer_events = [] then some { s with timer_events := new_timer_events, pc := .idle } else none
  | _ => none

/-- The transition function. -/
def step : TimeAct → Option Timers
  | .addTimerEvent millisecond client_data fn tv =>
    if s.userCode = true ∧ s.Reads tv then some (s.addTimerEvent millisecond client_data fn tv) else none
  | .enter now tv => if s.pc = .idle ∧ s.Reads tv then some (s.enter now tv) else none
  | .call i => s.call i
  | .ret r tv => if s.Reads tv then s.ret r tv else none
  | .leave => s.leave

/-- A loop without timers; the constructor does not set `last_time`. -/
def new (last_time : Int) : Timers := ⟨[], last_time, .idle, 0⟩

end Timers

/-- The timers as a transition system. -/
def timers : System Timers TimeAct where
  init s := ∃ last_time, s = .new last_time
  step := Timers.step

/-! ## The property -/

variable {s s' : Timers} {a : TimeAct}

/-- A timer is called at a reading that is not below its `due`. -/
def NotEarly (s : Timers) : Prop := ∀ event u, s.pc = .calling event u → event.due ≤ u

/-- No timer has a positive delay, when it is added or from a call of it, and the clock-skew branch is not taken. -/
def NoDelay (s : Timers) : TimeAct → Prop
  | .addTimerEvent millisecond _ _ _ => millisecond ≤ 0
  | .enter now _ => ¬ now < s.last_time
  | .ret r _ => r ≤ 0
  | _ => True

instance (s : Timers) : ∀ a, Decidable (NoDelay s a)
  | .addTimerEvent millisecond _ _ _ => inferInstanceAs (Decidable (millisecond ≤ 0))
  | .enter now _ => inferInstanceAs (Decidable (¬ now < s.last_time))
  | .ret r _ => inferInstanceAs (Decidable (r ≤ 0))
  | .call _ | .leave => isTrue trivial

/-- No queued timer is due after its `when`; the readings in use are not ahead of the clock. -/
structure OnTime (s : Timers) : Prop where
  queued : ∀ event ∈ s.timer_events, event.due ≤ event.when
  loop : ∀ u, s.pc = .loop u → u ≤ s.clock
  calling : ∀ event u, s.pc = .calling event u → event.due ≤ u ∧ u ≤ s.clock
  skew : ∀ l, s.pc ≠ .skew l
  skewCalling : ∀ event l, s.pc ≠ .skewCalling event l

theorem onTime_add {millisecond : Int} {client_data fn : Nat} {tv : Timeval} (h : OnTime s) (htv : s.Reads tv)
    (hms : millisecond ≤ 0) : OnTime (s.addTimerEvent millisecond client_data fn tv) where
  queued event he := by
    rcases List.mem_append.mp he with he | he
    · exact h.queued event he
    · obtain rfl := List.mem_singleton.mp he
      show mstime tv + millisecond ≤ mstime tv
      omega
  loop u hpc := Int.le_trans (h.loop u hpc) htv.2
  calling event u hpc := by
    obtain ⟨hdue, hu⟩ := h.calling event u hpc
    exact ⟨hdue, Int.le_trans hu htv.2⟩
  skew := h.skew
  skewCalling := h.skewCalling

theorem onTime_enter {now : Int} {tv : Timeval} (h : OnTime s) (htv : s.Reads tv) (hnow : ¬ now < s.last_time) :
    OnTime (s.enter now tv) := by
  unfold Timers.enter
  rw [if_neg hnow]
  refine ⟨h.queued, fun u hpc => ?_, fun event u hpc => ?_, fun l hpc => ?_, fun event l hpc => ?_⟩
  · cases hpc
    exact Int.le_of_eq (mstime_eq htv.1)
  · simp at hpc
  · simp at hpc
  · simp at hpc

theorem onTime_call {i : Nat} (h : OnTime s) (hs : s.call i = some s') : OnTime s' := by
  obtain ⟨event, he, hs⟩ := Option.bind_eq_some_iff.mp hs
  have hmem : event ∈ s.timer_events := List.mem_of_getElem? he
  split_ifs at hs with htop
  cases hpc : s.pc with
  | loop u =>
    rw [hpc] at hs
    dsimp only at hs
    split_ifs at hs with hwhen
    cases hs
    refine ⟨fun e hin => h.queued e (List.mem_of_mem_eraseIdx hin), fun u hpc => ?_, fun event' u' hpc' => ?_,
      fun l hpc => ?_, fun event l hpc => ?_⟩
    · simp at hpc
    · cases hpc'
      exact ⟨Int.le_trans (h.queued event hmem) hwhen, h.loop u hpc⟩
    · simp at hpc
    · simp at hpc
  | skew l => exact absurd hpc (h.skew l)
  | idle =>
    rw [hpc] at hs
    simp at hs
  | calling =>
    rw [hpc] at hs
    simp at hs
  | skewCalling =>
    rw [hpc] at hs
    simp at hs

theorem onTime_ret {r : Int} {tv : Timeval} (h : OnTime s) (htv : s.Reads tv) (hr : r ≤ 0)
    (hs : s.ret r tv = some s') : OnTime s' := by
  cases hpc : s.pc with
  | calling event u =>
    simp only [Timers.ret, hpc, Option.some.injEq] at hs
    obtain ⟨hdue, hu⟩ := h.calling event u hpc
    have hms : mstime tv = tv.ms := mstime_eq htv.1
    have hclock : s.clock ≤ tv.ms := htv.2
    -- a timer that is queued again was called at `u`, and `when` is a later reading
    have hre : (Timers.rearm event u r tv).due ≤ (Timers.rearm event u r tv).when := by
      show (if r ≥ 0 then u + r else event.due) ≤ mstime tv
      rw [hms]
      split_ifs <;> omega
    rw [← hs]
    refine ⟨fun e he => ?_, fun u' hpc' => ?_, fun event' u' hpc' => ?_, fun l hpc' => ?_, fun e l hpc' => ?_⟩
    · dsimp only at he
      split_ifs at he with hne
      · rcases List.mem_append.mp he with he | he
        · exact h.queued e he
        · rw [List.mem_singleton.mp he]
          exact hre
      · exact h.queued e he
    · cases hpc'
      exact Int.le_of_eq hms
    · simp at hpc'
    · simp at hpc'
    · simp at hpc'
  | skewCalling event l => exact absurd hpc (h.skewCalling event l)
  | idle => simp [Timers.ret, hpc] at hs
  | loop => simp [Timers.ret, hpc] at hs
  | skew => simp [Timers.ret, hpc] at hs

theorem onTime_leave (h : OnTime s) (hs : s.leave = some s') : OnTime s' := by
  have done : OnTime { s with pc := .idle } :=
    ⟨h.queued, fun u hpc => (by cases hpc), fun e u hpc => (by cases hpc), fun l hpc => (by cases hpc),
      fun e l hpc => (by cases hpc)⟩
  cases hpc : s.pc with
  | loop u =>
    simp only [Timers.leave, hpc, Option.ite_none_right_eq_some, Option.some.injEq] at hs
    rw [← hs.2]
    exact done
  | skew l => exact absurd hpc (h.skew l)
  | idle => simp [Timers.leave, hpc] at hs
  | calling => simp [Timers.leave, hpc] at hs
  | skewCalling => simp [Timers.leave, hpc] at hs

theorem onTime_step (h : OnTime s) (hok : NoDelay s a) (hs : s.step a = some s') : OnTime s' := by
  cases a with
  | addTimerEvent millisecond client_data fn tv =>
    simp only [Timers.step, Option.ite_none_right_eq_some, Option.some.injEq] at hs
    rw [← hs.2]
    exact onTime_add h hs.1.2 hok
  | enter now tv =>
    simp only [Timers.step, Option.ite_none_right_eq_some, Option.some.injEq] at hs
    rw [← hs.2]
    exact onTime_enter h hs.1.2 hok
  | call i => exact onTime_call h hs
  | ret r tv =>
    simp only [Timers.step, Option.ite_none_right_eq_some] at hs
    exact onTime_ret h hs.1 hok hs.2
  | leave => exact onTime_leave h hs

theorem onTime_new (last_time : Int) : OnTime (.new last_time) :=
  ⟨fun e he => absurd he List.not_mem_nil, fun u hpc => (by cases hpc), fun e u hpc => (by cases hpc),
    fun l hpc => (by cases hpc), fun e l hpc => (by cases hpc)⟩

/-- **No timer is early**, in every run in which no delay is positive: neither one a timer is added with nor one that
a call of it returns. -/
theorem notEarly_of_noDelay (last_time : Int) (acts : List TimeAct)
    (hok : StepsOk timers NoDelay (.new last_time) acts) : Always timers NotEarly (.new last_time) acts :=
  always_of_stepsOk (I := OnTime) (fun _ h event u hpc => (h.calling event u hpc).1)
    (fun _ _ _ h ho hs => onTime_step h ho hs) (onTime_new last_time) hok

/-- A timer is added at 1000 ms and the loop processes the timers at the same reading. -/
def addedNow (millisecond : Int) : List TimeAct :=
  [.addTimerEvent millisecond 0 7 ⟨1, 0⟩, .enter 1 ⟨1, 0⟩, .call 0]

theorem addedNow_notEarly : Always timers NotEarly (.new 0) (addedNow 0 ++ [.ret 0 ⟨1, 0⟩, .call 0, .ret (-1) ⟨1, 0⟩]) :=
  notEarly_of_noDelay 0 _ (by decide)

/-- A timer with a delay of 100 ms is called at once. -/
theorem addedNow_early : ¬ Always timers NotEarly (.new 0) (addedNow 100) := by
  intro h
  have hrun : (timers.exec (.new 0) (addedNow 100)).map Timers.pc = some (.calling ⟨1000, 7, 0, 1100⟩ 1000) := by
    decide
  obtain ⟨s, hs, hv⟩ := Option.map_eq_some_iff.mp hrun
  exact absurd (h.exec hs _ _ hv) (by decide)

end BeanRaft.Event
