import BeanRaft.Event.Timers

/-!
# BeanRaft.Event.Clock — the timers and the wall clock

`mstime` counts the milliseconds since the epoch in an `int`.

* `mstimeChecked`: the same with its two operations checked for overflow.
* `AgreesWithClock`: the due test and the order of the queue decide as the clock does, for a timer that was set at one
  reading and checked, or compared, at another.
* `agrees_iff`: they do if and only if the milliseconds of both readings fit in an `int`.
-/

namespace BeanRaft.Event

open CInt

/-- `gettimeofday` after the epoch: the microseconds are those of the second. -/
structure Timeval.Normal (tv : Timeval) : Prop where
  sec : 0 ≤ tv.tv_sec
  usec : 0 ≤ tv.tv_usec
  usec_lt : tv.tv_usec < 1000000

def Timeval.NotAfter (t t' : Timeval) : Prop :=
  t.tv_sec < t'.tv_sec ∨ t.tv_sec = t'.tv_sec ∧ t.tv_usec ≤ t'.tv_usec

/-- `mstime` when an overflow of its multiplication or its addition is undefined. -/
def mstimeChecked (tv : Timeval) : Option Int :=
  (intResult (int32 tv.tv_sec * 1000)).bind fun mst => intResult (mst + int32 (tv.tv_usec / 1000))

/-- `timeEventCompare::operator()`: the order of the queue, whose top is an element that is below no other. -/
def timeEventCompare (t1 t2 : TimeEvent) : Bool := t1.when < t2.when

/-- The timer was queued at the reading `t`. -/
def SetAt (t : Timeval) (event : TimeEvent) : Prop := event.when = mstime t

/-- A timer that was set at `t`, and the reading `t'`. -/
structure AgreesWithClock (t t' : Timeval) : Prop where
  exact : mstimeChecked t = some t.ms ∧ mstimeChecked t' = some t'.ms
  monotone : t.NotAfter t' → mstime t ≤ mstime t'
  /-- At the head of the loop of `processTimeEvents` the timer on top is called when its time has come. -/
  due : ∀ (s : Timers) (i : Nat) (event : TimeEvent), s.pc = .loop (mstime t') → s.timer_events[i]? = some event →
    IsTop s.timer_events event → SetAt t event → ((s.call i).isSome = true ↔ t.ms ≤ t'.ms)
  earlier : ∀ event event', SetAt t event → SetAt t' event' → (timeEventCompare event event' = true ↔ t.ms < t'.ms)

section Clock

variable {s : Timers} {t t' tv : Timeval} {event : TimeEvent} {v : Int}

theorem Timeval.NotAfter.ms_le (h : t.NotAfter t') (ht : t.Normal) (ht' : t'.Normal) : t.ms ≤ t'.ms := by
  have husec := ht.usec_lt
  have husec' := ht'.usec
  unfold Timeval.ms
  rcases h with hsec | ⟨hsec, hle⟩
  · omega
  · omega

/-- Without overflow, a machine whose `int` wraps computes the same. -/
theorem mstime_of_checked (h : mstimeChecked tv = some v) : mstime tv = v := by
  obtain ⟨mst, hmul, hadd⟩ := Option.bind_eq_some_iff.mp h
  unfold mstime
  rw [int32_of_intResult hmul, int32_of_intResult hadd]

/-- The milliseconds are computed without overflow if and only if they fit. -/
theorem mstimeChecked_iff (h : tv.Normal) : mstimeChecked tv = some tv.ms ↔ tv.ms ≤ INT_MAX := by
  constructor
  · intro hms
    obtain ⟨mst, -, hadd⟩ := Option.bind_eq_some_iff.mp hms
    obtain ⟨hrange, heq⟩ := intResult_eq_some.mp hadd
    rw [← heq]
    exact hrange.2
  · intro hle
    have hsec := h.sec
    have husec := h.usec
    have hlt := h.usec_lt
    have hms : tv.ms = tv.tv_sec * 1000 + tv.tv_usec / 1000 := rfl
    have hmax : INT_MAX = 2147483647 := rfl
    have hmin : INT_MIN = -2147483648 := rfl
    have hcast : int32 tv.tv_sec = tv.tv_sec := int32_of_range (by omega) (by omega)
    have hcast' : int32 (tv.tv_usec / 1000) = tv.tv_usec / 1000 := int32_of_range (by omega) (by omega)
    have hmul : intResult (tv.tv_sec * 1000) = some (tv.tv_sec * 1000) :=
      intResult_eq_some.mpr ⟨⟨by omega, by omega⟩, rfl⟩
    unfold mstimeChecked
    rw [hcast, hcast', hmul, Option.bind_some]
    exact intResult_eq_some.mpr ⟨⟨by omega, by omega⟩, hms.symm⟩

/-! ## The queue -/

/-- The due test, at the head of the loop. -/
theorem call_isSome {i : Nat} {u : Int} (hpc : s.pc = .loop u) (hi : s.timer_events[i]? = some event)
    (htop : IsTop s.timer_events event) : (s.call i).isSome = true ↔ event.when ≤ u := by
  unfold Timers.call
  rw [hi, Option.bind_some, if_pos htop, hpc]
  dsimp only
  split_ifs with hdue
  · exact ⟨fun _ => hdue, fun _ => rfl⟩
  · refine ⟨fun h => ?_, fun h => absurd h hdue⟩
    cases h

/-- **The timers agree with the wall clock** on two readings if and only if the milliseconds of both fit in an `int`,
until the 25th day after the epoch. -/
theorem agrees_iff (ht : t.Normal) (ht' : t'.Normal) : AgreesWithClock t t' ↔ t.ms ≤ INT_MAX ∧ t'.ms ≤ INT_MAX := by
  constructor
  · intro h
    exact ⟨(mstimeChecked_iff ht).mp h.exact.1, (mstimeChecked_iff ht').mp h.exact.2⟩
  · rintro ⟨hfit, hfit'⟩
    have hchecked := (mstimeChecked_iff ht).mpr hfit
    have hchecked' := (mstimeChecked_iff ht').mpr hfit'
    have hms := mstime_of_checked hchecked
    have hms' := mstime_of_checked hchecked'
    refine ⟨⟨hchecked, hchecked'⟩, fun h => ?_, fun s i event hpc hi htop hset => ?_, fun event event' hset hset' => ?_⟩
    · rw [hms, hms']
      exact h.ms_le ht ht'
    · rw [call_isSome hpc hi htop, hset, hms, hms']
    · unfold timeEventCompare
      rw [hset, hset', hms, hms', decide_eq_true_iff]

/-- The first reading, and the last one that fits. -/
theorem agrees_last : AgreesWithClock ⟨0, 0⟩ ⟨2147483, 647999⟩ ↔
    (⟨0, 0⟩ : Timeval).ms ≤ INT_MAX ∧ (⟨2147483, 647999⟩ : Timeval).ms ≤ INT_MAX :=
  agrees_iff ⟨by decide, by decide, by decide⟩ ⟨by decide, by decide, by decide⟩

/-- In December 2023 the product overflows; where it wraps, the later reading is below the earlier one. -/
theorem december_not_agrees : ¬ AgreesWithClock ⟨1702900000, 0⟩ ⟨1703000000, 0⟩ ∧
    mstime ⟨1703000000, 0⟩ < mstime ⟨1702900000, 0⟩ := by
  refine ⟨fun h => ?_, by decide⟩
  exact absurd h.exact.1 (by decide)

end Clock

end BeanRaft.Event
