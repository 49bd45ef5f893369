import Mathlib.Data.Nat.Count
import BeanRaft.Event.TimeLoop

/-!
# BeanRaft.Event.Return — does processTimeEvents return?

* `Returned`: the call returns; in the clock-skew branch it has called every timer once, and those whose callback did not
  return -1 are queued.
* `Drains`: enough of the callbacks return -1.
* The clock-skew branch takes no timer from the queue.  In the other a timer that is queued again is due at once, since
  its `when` is the reading itself: `returned_iff`.
-/

namespace BeanRaft.Event

open Lts CInt PriorityQueue

/-- The call returns, and what it owes in the clock-skew branch. -/
def Returned (content : List TimeEvent) (tv : Timeval) (env : Nat → Turn) (last_time now : Int) : Prop :=
  ∃ fuel r, processTimeEvents env fuel last_time now tv (numbered content) = some r ∧
    (now < last_time → (r.2.map TimerCall.timer).Perm (numbered content) ∧
      r.1.Perm ((r.2.filter fun c => c.ret ≠ -1).map TimerCall.timer))

/-- Before the turn `k` at least `n` callbacks have returned -1. -/
def Drains (env : Nat → Turn) (n k : Nat) : Prop := n ≤ Nat.count (fun i => (env i).ret = -1) k

section Loops

variable {env : Nat → Turn} {tv : Timeval} {fuel k : Nat} {q q' : List Timer} {u : Int} {x : Timer}
  {r : List Timer × List TimerCall}

/-! ## The clock-skew branch -/

/-- With a timer in the queue the loop goes on for ever. -/
theorem skewLoop_ne_nil (h : q ≠ []) : skewLoop env fuel k q q' = none := by
  induction fuel generalizing k q' with
  | zero => rfl
  | succ fuel ih =>
    obtain ⟨y, hy⟩ := List.exists_mem_of_ne_nil q h
    obtain ⟨x, hx⟩ := topTimer_of_mem (c := (env k).pick) hy
    simp only [skewLoop, hx]
    rw [ih]
    rfl

/-! ## The loop of the other branch -/

/-- When the clock does not go back, the timers that are due stay due, and so does one that is queued again. -/
theorem due_requeue (hclock : Forward tv env) (hall : ∀ y ∈ q, y.when ≤ readings tv env k) :
    ∀ y ∈ requeue q x u (env k), y.when ≤ readings tv env (k + 1) := by
  intro y hy
  rcases mem_requeue hy with hy | rfl
  · exact Int.le_trans (hall y hy) (hclock k)
  · exact Int.le_refl _

/-- A loop that returns with all timers due has emptied the queue. -/
theorem LoopTurns.drains (h : LoopTurns env k q u r) (hu : u = readings tv env k) (hclock : Forward tv env)
    (hall : ∀ y ∈ q, y.when ≤ readings tv env k) :
    ∃ j, Drains env (q.length + Nat.count (fun i => (env i).ret = -1) k) j := by
  induction h with
  | @stop k q u hlate =>
    have hnil : q = [] := by
      by_contra hne
      obtain ⟨y, hy⟩ := List.exists_mem_of_ne_nil q hne
      obtain ⟨x, hx⟩ := topTimer_of_mem (c := (env k).pick) hy
      have hdue := hall x (topTimer_spec hx).1
      have hxlate := hlate x hx
      omega
    refine ⟨k, ?_⟩
    rw [hnil]
    unfold Drains
    rw [List.length_nil, Nat.zero_add]
  | @turn k q u x r hx hdue hrest ih =>
    subst hu
    obtain ⟨j, hj⟩ := ih rfl (due_requeue hclock hall)
    have hlen := length_requeue (u := readings tv env k) (t := env k) (topTimer_spec hx).1
    refine ⟨j, ?_⟩
    unfold Drains at hj ⊢
    rw [Nat.count_succ] at hj
    omega

/-- The measure is the number of callbacks up to the last -1 that is needed. -/
theorem loopTurns_of_drains {d : Nat} (hclock : Forward tv env) (hall : ∀ y ∈ q, y.when ≤ readings tv env k)
    (h : Drains env (q.length + Nat.count (fun i => (env i).ret = -1) k) (k + d)) :
    ∃ r, LoopTurns env k q (readings tv env k) r := by
  induction d generalizing k q with
  | zero =>
    have hnil : q = [] := by
      apply List.length_eq_zero_iff.mp
      unfold Drains at h
      rw [Nat.add_zero] at h
      omega
    refine ⟨(q, []), .stop fun x hx => ?_⟩
    rw [hnil] at hx
    exact absurd (topTimer_spec hx).1 List.not_mem_nil
  | succ d ih =>
    rcases hx : topTimer q (env k).pick with _ | x
    · refine ⟨(q, []), .stop fun x hx' => ?_⟩
      rw [hx] at hx'
      exact absurd hx' (Option.some_ne_none x).symm
    · have hmem := (topTimer_spec hx).1
      have hlen := length_requeue (u := readings tv env k) (t := env k) hmem
      have hturn : k + (d + 1) = k + 1 + d := by omega
      obtain ⟨r, hr⟩ := ih (q := requeue q x (readings tv env k) (env k)) (due_requeue hclock hall) (by
        unfold Drains at h ⊢
        rw [Nat.count_succ, ← hturn]
        omega)
      exact ⟨_, .turn hx (hall x hmem) hr⟩

/-- A timer that is not due ends the loop at its first turn. -/
theorem loopTurns_late (hx : x ∈ q) (hlate : u < x.when) : LoopTurns env k q u (q, []) :=
  .stop fun _ hy => top_gt hy hx hlate

end Loops

/-! ## The property -/

theorem numbered_eq_nil {content : List TimeEvent} : numbered content = [] ↔ content = [] := by
  rw [← List.length_eq_zero_iff, length_numbered, List.length_eq_zero_iff]

theorem returned_nil (tv : Timeval) (env : Nat → Turn) (last_time now : Int) : Returned [] tv env last_time now := by
  refine ⟨1, ([], []), ?_, fun _ => ⟨List.Perm.nil, List.Perm.nil⟩⟩
  unfold processTimeEvents
  split_ifs
  · rfl
  · rfl

theorem not_returned_of_skew {content : List TimeEvent} {tv : Timeval} {env : Nat → Turn} {last_time now : Int}
    (hskew : now < last_time) (hne : content ≠ []) : ¬ Returned content tv env last_time now := by
  rintro ⟨fuel, r, hr, -⟩
  have hq : numbered content ≠ [] := fun h => hne (numbered_eq_nil.mp h)
  unfold processTimeEvents at hr
  rw [if_pos hskew, skewLoop_ne_nil hq] at hr
  exact absurd hr (Option.some_ne_none r).symm

/-- Outside the clock-skew branch the call is one of the loop. -/
theorem returned_iff_loopTurns {content : List TimeEvent} {tv : Timeval} {env : Nat → Turn} {last_time now : Int}
    (hskew : ¬ now < last_time) : Returned content tv env last_time now ↔
      ∃ r, LoopTurns env 0 (numbered content) (readings tv env 0) r := by
  have hbranch : ∀ fuel, processTimeEvents env fuel last_time now tv (numbered content) =
      timeLoop env fuel 0 (numbered content) (readings tv env 0) := fun fuel => if_neg hskew
  constructor
  · rintro ⟨fuel, r, hr, -⟩
    rw [hbranch] at hr
    exact ⟨r, loopTurns_iff.mpr ⟨fuel, hr⟩⟩
  · rintro ⟨r, hturns⟩
    obtain ⟨fuel, hr⟩ := loopTurns_iff.mp hturns
    exact ⟨fuel, r, (hbranch fuel).trans hr, fun h => absurd h hskew⟩

/-- The loop returns when a timer is not due, or when the callbacks empty the queue. -/
theorem loopTurns_exists_iff {content : List TimeEvent} {tv : Timeval} {env : Nat → Turn} (hclock : Forward tv env) :
    (∃ r, LoopTurns env 0 (numbered content) (readings tv env 0) r) ↔
      (∃ e ∈ content, mstime tv < e.when) ∨ ∃ k, Drains env content.length k := by
  have hzero : (numbered content).length + Nat.count (fun i => (env i).ret = -1) 0 = content.length := by
    rw [length_numbered, Nat.count_zero, Nat.add_zero]
  by_cases hlate : ∃ y ∈ numbered content, readings tv env 0 < y.when
  · have hlate' : ∃ e ∈ content, mstime tv < e.when := by
      by_contra hno
      simp only [not_exists, not_and] at hno
      obtain ⟨y, hy, hgt⟩ := hlate
      exact (forall_numbered (p := fun t => ¬ mstime tv < t)).mpr hno y hy hgt
    obtain ⟨y, hy, hgt⟩ := hlate
    exact ⟨fun _ => .inl hlate', fun _ => ⟨_, loopTurns_late hy hgt⟩⟩
  · simp only [not_exists, not_and, Int.not_lt] at hlate
    constructor
    · rintro ⟨r, hr⟩
      obtain ⟨k, hk⟩ := hr.drains rfl hclock hlate
      rw [hzero] at hk
      exact .inr ⟨k, hk⟩
    · rintro (⟨e, he, hgt⟩ | ⟨k, hk⟩)
      · have hle := (forall_numbered (p := fun t => t ≤ readings tv env 0)).mp hlate e he
        exact absurd hgt (Int.not_lt.mpr hle)
      · rw [← hzero] at hk
        exact loopTurns_of_drains (d := k) hclock hlate (by rw [Nat.zero_add]; exact hk)

/-- **When processTimeEvents returns**, on a clock that does not go back during the call: exactly when there is no timer,
or outside the clock-skew branch when one of them is not due at the start or as many callbacks as there are timers return
-1. -/
theorem returned_iff (content : List TimeEvent) (tv : Timeval) (env : Nat → Turn) (last_time now : Int)
    (hclock : Forward tv env) :
    Returned content tv env last_time now ↔ content = [] ∨
      (¬ now < last_time ∧ ((∃ e ∈ content, mstime tv < e.when) ∨ ∃ k, Drains env content.length k)) := by
  by_cases hnil : content = []
  · subst hnil
    exact ⟨fun _ => .inl rfl, fun _ => returned_nil tv env last_time now⟩
  by_cases hskew : now < last_time
  · constructor
    · intro h
      exact absurd h (not_returned_of_skew hskew hnil)
    · rintro (h | ⟨h, -⟩)
      · exact absurd h hnil
      · exact absurd hskew h
  · rw [returned_iff_loopTurns hskew, loopTurns_exists_iff hclock]
    constructor
    · intro h
      exact .inr ⟨hskew, h⟩
    · rintro (h | ⟨-, h⟩)
      · exact absurd h hnil
      · exact h

/-- A timer whose callback always asks for 100 ms, on a clock that stands still. -/
def everHundred : Nat → Turn := fun _ => ⟨0, 100, ⟨0, 5000⟩⟩

/-- A clock that stands still. -/
theorem forward_still {tv : Timeval} {env : Nat → Turn} (h : ∀ k, (env k).tv = tv) : Forward tv env := by
  intro k
  have hread : ∀ j, readings tv env j = mstime tv := by
    intro j
    cases j with
    | zero => rfl
    | succ j =>
      show mstime (env j).tv = mstime tv
      rw [h j]
  rw [hread k, hread (k + 1)]

theorem everHundred_forward : Forward ⟨0, 5000⟩ everHundred := forward_still fun _ => rfl

/-- The timer is called for ever. -/
theorem everHundred_iff : Forward ⟨0, 5000⟩ everHundred ∧ (Returned [⟨1, 0, 0, 1⟩] ⟨0, 5000⟩ everHundred 0 5 ↔
    [(⟨1, 0, 0, 1⟩ : TimeEvent)] = [] ∨ (¬ (5 : Int) < 0 ∧
      ((∃ e ∈ [(⟨1, 0, 0, 1⟩ : TimeEvent)], mstime ⟨0, 5000⟩ < e.when) ∨ ∃ k, Drains everHundred 1 k))) :=
  ⟨everHundred_forward, returned_iff [⟨1, 0, 0, 1⟩] ⟨0, 5000⟩ everHundred 0 5 everHundred_forward⟩

/-- The clock was set back by a second, and the callback returns -1. -/
theorem skew_stays : ¬ ∀ content tv env last_time now, Forward tv env → (∀ k, (env k).ret = -1 ∨ 0 < (env k).ret) →
    Returned content tv env last_time now := by
  intro h
  have hback : (4 : Int) < 5 := by decide
  have hreturned := h [⟨1, 0, 0, 1⟩] ⟨0, 5000⟩ (fun _ => ⟨0, -1, ⟨0, 5000⟩⟩) 5 4 (forward_still fun _ => rfl)
    fun _ => .inl rfl
  exact not_returned_of_skew hback (List.cons_ne_nil _ _) hreturned

end BeanRaft.Event
