import Mathlib.Data.List.InsertIdx
import BeanRaft.Lib.PriorityQueue
import BeanRaft.Event.Timers

/-!
# BeanRaft.Event.TimeLoop — one call of processTimeEvents

The two loops of `processTimeEvents` as functions of the queue and of what the environment does at each turn.

* `Timer`: a queued timer with (history) its number in the queue at the start of the call.  `TimerCall`: one call of a
  callback, with the reading at which the loop found it due.
* `Turn`: the choice of `top()` among timers with one `when`, the value that the callback returns, and the reading after
  it.  The callbacks add no timers.
* `timeLoop`, `skewLoop`: a result `none` is a loop that is still running when the fuel is used up.
* `LoopTurns`: the turns of a call that returns; what such a call keeps is proved by induction on them.
* `timeLoop_exec`: a call of `timeLoop` is a run of the timers.
-/

namespace BeanRaft.Event

open Lts CInt PriorityQueue

structure Timer where
  id : Nat
  event : TimeEvent
  deriving DecidableEq, Repr

structure TimerCall where
  timer : Timer
  /-- `current_mstime` at the call; `none` in the clock-skew branch. -/
  reading : Option Int
  ret : Int
  deriving DecidableEq, Repr

/-- The environment's part of one turn of a loop. -/
structure Turn where
  pick : Nat
  ret : Int
  tv : Timeval
  deriving DecidableEq, Repr

/-- The timers of a queue, numbered. -/
def numbered (content : List TimeEvent) : List Timer := content.mapIdx fun i e => ⟨i, e⟩

def Timer.when (x : Timer) : Int := x.event.when

/-- `timer_events.top()` -/
def topTimer (q : List Timer) (c : Nat) : Option Timer := top Timer.when q c

/-- The timer after its call, as it is queued again (line 180). -/
def Timer.rearm (x : Timer) (u : Int) (t : Turn) : Timer := ⟨x.id, Timers.rearm x.event u t.ret t.tv⟩

/-- The queue after a turn of the loop (lines 175-182). -/
def requeue (q : List Timer) (x : Timer) (u : Int) (t : Turn) : List Timer :=
  if t.ret ≠ -1 then emplace (pop q x) (x.rearm u t) else pop q x

/-- The loop of `processTimeEvents` (line 173) from the turn `k` on, with `current_mstime`: the queue at its end, and the
calls it makes. -/
def timeLoop (env : Nat → Turn) : Nat → Nat → List Timer → Int → Option (List Timer × List TimerCall)
  | 0, _, _, _ => none
  | fuel + 1, k, q, current_mstime =>
    match topTimer q (env k).pick with
    | none => some (q, [])
    | some event =>
      if event.when ≤ current_mstime then
        (timeLoop env fuel (k + 1) (requeue q event current_mstime (env k)) (mstime (env k).tv)).map fun r =>
          (r.1, ⟨event, some current_mstime, (env k).ret⟩ :: r.2)
      else some (q, [])

/-- The loop of the clock-skew branch (line 158): no timer is taken from the queue. -/
def skewLoop (env : Nat → Turn) : Nat → Nat → List Timer → List Timer → Option (List Timer × List TimerCall)
  | 0, _, _, _ => none
  | fuel + 1, k, q, new_timer_events =>
    match topTimer q (env k).pick with
    | none => some (new_timer_events, [])
    | some event =>
      (skewLoop env fuel (k + 1) q
        (if (env k).ret ≠ -1 then emplace new_timer_events event else new_timer_events)).map fun r =>
          (r.1, ⟨event, none, (env k).ret⟩ :: r.2)

/-- `processTimeEvents` (line 146) with `time(NULL)` and the first reading of the clock. -/
def processTimeEvents (env : Nat → Turn) (fuel : Nat) (last_time now : Int) (tv : Timeval) (q : List Timer) :
    Option (List Timer × List TimerCall) :=
  if now < last_time then skewLoop env fuel 0 q [] else timeLoop env fuel 0 q (mstime tv)

/-! ## One turn -/

section Turns

variable {env : Nat → Turn} {fuel k : Nat} {q : List Timer} {u : Int} {x y : Timer} {t : Turn}

theorem topTimer_spec {c : Nat} (h : topTimer q c = some x) : x ∈ q ∧ ∀ y ∈ q, y.when ≤ x.when := top_spec h

theorem exists_topTimer (hx : x ∈ q) (hmax : ∀ y ∈ q, y.when ≤ x.when) : ∃ c, topTimer q c = some x :=
  exists_top hx hmax

theorem topTimer_of_mem {c : Nat} (hy : y ∈ q) : ∃ x, topTimer q c = some x := top_of_mem hy

/-- The loop ends when the queue is empty, or its top is not due. -/
theorem timeLoop_stop (hlate : ∀ x, topTimer q (env k).pick = some x → u < x.when) :
    timeLoop env (fuel + 1) k q u = some (q, []) := by
  rcases hx : topTimer q (env k).pick with _ | x
  · simp only [timeLoop, hx]
  · simp only [timeLoop, hx]
    exact if_neg (Int.not_le.mpr (hlate x hx))

/-- A turn of the loop. -/
theorem timeLoop_turn (hx : topTimer q (env k).pick = some x) (hdue : x.when ≤ u) :
    timeLoop env (fuel + 1) k q u =
      (timeLoop env fuel (k + 1) (requeue q x u (env k)) (mstime (env k).tv)).map fun r =>
        (r.1, ⟨x, some u, (env k).ret⟩ :: r.2) := by
  simp only [timeLoop, hx]
  exact if_pos hdue

/-- The turns of a call of the loop that returns. -/
inductive LoopTurns (env : Nat → Turn) : Nat → List Timer → Int → List Timer × List TimerCall → Prop
  | stop {k : Nat} {q : List Timer} {u : Int} (hlate : ∀ x, topTimer q (env k).pick = some x → u < x.when) :
    LoopTurns env k q u (q, [])
  | turn {k : Nat} {q : List Timer} {u : Int} {x : Timer} {r : List Timer × List TimerCall}
    (hx : topTimer q (env k).pick = some x) (hdue : x.when ≤ u)
    (hrest : LoopTurns env (k + 1) (requeue q x u (env k)) (mstime (env k).tv) r) :
    LoopTurns env k q u (r.1, ⟨x, some u, (env k).ret⟩ :: r.2)

theorem LoopTurns.exists_timeLoop {r : List Timer × List TimerCall} (h : LoopTurns env k q u r) :
    ∃ fuel, timeLoop env fuel k q u = some r := by
  induction h with
  | stop hlate => exact ⟨1, timeLoop_stop hlate⟩
  | turn hx hdue hrest ih =>
    obtain ⟨fuel, hr⟩ := ih
    refine ⟨fuel + 1, ?_⟩
    rw [timeLoop_turn hx hdue, hr]
    rfl

/-- The loop returns exactly when it has such turns. -/
theorem loopTurns_iff {r : List Timer × List TimerCall} :
    LoopTurns env k q u r ↔ ∃ fuel, timeLoop env fuel k q u = some r := by
  refine ⟨LoopTurns.exists_timeLoop, ?_⟩
  rintro ⟨fuel, h⟩
  induction fuel generalizing k q u r with
  | zero => simp [timeLoop] at h
  | succ fuel ih =>
    by_cases hlate : ∀ x, topTimer q (env k).pick = some x → u < x.when
    · rw [timeLoop_stop hlate] at h
      obtain rfl := Option.some.inj h
      exact .stop hlate
    · simp only [not_forall, Int.not_lt] at hlate
      obtain ⟨x, hx, hdue⟩ := hlate
      rw [timeLoop_turn hx hdue] at h
      obtain ⟨r', hr', rfl⟩ := Option.map_eq_some_iff.mp h
      exact .turn hx hdue (ih hr')

/-- The loop reads the turns from its own on. -/
theorem LoopTurns.congr {env' : Nat → Turn} {r : List Timer × List TimerCall} (h : LoopTurns env k q u r)
    (he : ∀ j, k ≤ j → env' j = env j) : LoopTurns env' k q u r := by
  induction h with
  | @stop k q u hlate =>
    apply LoopTurns.stop
    rw [he k (Nat.le_refl k)]
    exact hlate
  | @turn k q u x r hx hdue hrest ih =>
    have hk := he k (Nat.le_refl k)
    rw [← hk] at hx ih ⊢
    exact .turn hx hdue (ih fun j hj => he j (Nat.le_of_succ_le hj))

theorem mem_requeue (h : y ∈ requeue q x u t) : y ∈ q ∨ y = x.rearm u t := by
  unfold requeue at h
  split_ifs at h
  · rcases List.mem_append.mp h with h | h
    · exact .inl (pop_subset h)
    · exact .inr (List.mem_singleton.mp h)
  · exact .inl (pop_subset h)

/-- Where the numbers differ, the top is gone, or it is queued again. -/
theorem mem_requeue_cases (hx : x ∈ q) (hq : (q.map Timer.id).Nodup) (h : y ∈ requeue q x u t) :
    (y ∈ q ∧ y.id ≠ x.id) ∨ (y = x.rearm u t ∧ t.ret ≠ -1) := by
  have hn := ((perm_pop hx).map Timer.id).nodup_iff.mp hq
  have hpop : y ∈ pop q x → y ∈ q ∧ y.id ≠ x.id := fun hy =>
    ⟨pop_subset hy, fun he => (List.nodup_cons.mp hn).1 (he ▸ List.mem_map_of_mem hy)⟩
  unfold requeue at h
  split_ifs at h with hret
  · rcases List.mem_append.mp h with h | h
    · exact .inl (hpop h)
    · exact .inr ⟨List.mem_singleton.mp h, hret⟩
  · exact .inl (hpop h)

theorem mem_requeue_of_ne (hy : y ∈ q) (hne : y ≠ x) : y ∈ requeue q x u t := by
  unfold requeue
  split_ifs
  · exact List.mem_append_left _ (mem_pop_of_ne hy hne)
  · exact mem_pop_of_ne hy hne

/-- A timer leaves the queue when its callback returns -1, and no other does. -/
theorem ids_requeue (hx : x ∈ q) :
    (q.map Timer.id).Perm
      (if t.ret = -1 then x.id :: (requeue q x u t).map Timer.id else (requeue q x u t).map Timer.id) := by
  have hperm : (q.map Timer.id).Perm (x.id :: (pop q x).map Timer.id) := (perm_pop hx).map Timer.id
  unfold requeue
  by_cases hret : t.ret = -1
  · rw [if_pos hret, if_neg (fun hne => hne hret)]
    exact hperm
  · rw [if_neg hret, if_pos hret]
    refine hperm.trans ?_
    unfold emplace
    rw [List.map_append]
    exact (List.perm_append_singleton _ _).symm

theorem length_requeue (hx : x ∈ q) : (requeue q x u t).length + (if t.ret = -1 then 1 else 0) = q.length := by
  have hlen := (ids_requeue (u := u) (t := t) hx).length_eq
  split_ifs at hlen ⊢ with hret
  · simpa using hlen.symm
  · simpa using hlen.symm

theorem nodup_requeue (hx : x ∈ q) (hq : (q.map Timer.id).Nodup) : ((requeue q x u t).map Timer.id).Nodup := by
  have hn := (ids_requeue (u := u) (t := t) hx).nodup_iff.mp hq
  split_ifs at hn
  · exact (List.nodup_cons.mp hn).2
  · exact hn

end Turns

/-! ## The numbering -/

theorem numbered_ids (content : List TimeEvent) : (numbered content).map Timer.id = List.range content.length := by
  refine List.ext_getElem (by simp [numbered]) fun i h1 h2 => ?_
  simp [numbered]

theorem numbered_events (content : List TimeEvent) : (numbered content).map Timer.event = content := by
  refine List.ext_getElem (by simp [numbered]) fun i h1 h2 => ?_
  simp [numbered]

theorem numbered_nodup (content : List TimeEvent) : ((numbered content).map Timer.id).Nodup := by
  rw [numbered_ids]
  exact List.nodup_range

theorem length_numbered (content : List TimeEvent) : (numbered content).length = content.length := List.length_mapIdx

/-- A property of the due times of all timers is one of the content. -/
theorem forall_numbered {p : Int → Prop} {content : List TimeEvent} :
    (∀ x ∈ numbered content, p x.when) ↔ ∀ e ∈ content, p e.when := by
  have hmap : (numbered content).map Timer.when = content.map TimeEvent.when := by
    rw [← numbered_events content, List.map_map, numbered_events content]
    rfl
  constructor
  · intro h e he
    have hmem : e.when ∈ (numbered content).map Timer.when := by
      rw [hmap]
      exact List.mem_map_of_mem he
    obtain ⟨x, hx, hw⟩ := List.mem_map.mp hmem
    rw [← hw]
    exact h x hx
  · intro h x hx
    have hmem : x.when ∈ content.map TimeEvent.when := by
      rw [← hmap]
      exact List.mem_map_of_mem hx
    obtain ⟨e, he, hw⟩ := List.mem_map.mp hmem
    rw [← hw]
    exact h e he

/-! ## The clock -/

/-- The readings of a call: the first one, and one after each callback. -/
def readings (tv : Timeval) (env : Nat → Turn) : Nat → Int
  | 0 => mstime tv
  | k + 1 => mstime (env k).tv

/-- The clock does not go back during the call. -/
def Forward (tv : Timeval) (env : Nat → Turn) : Prop := ∀ k, readings tv env k ≤ readings tv env (k + 1)

/-! ## The choices of `top()` -/

/-- The same turns, with other choices of `top()`. -/
def withPicks (env : Nat → Turn) (pick : Nat → Nat) (k : Nat) : Turn := { env k with pick := pick k }

/-! ## The call as a run of the timers -/

section Run

variable {env : Nat → Turn} {fuel k c : Nat} {q : List Timer} {u : Int} {x : Timer} {t : Turn} {s : Timers}

theorem isTop_events (h : topTimer q c = some x) : IsTop (q.map Timer.event) x.event := by
  intro e he
  obtain ⟨y, hy, rfl⟩ := List.mem_map.mp he
  exact (topTimer_spec h).2 y hy

/-- The loop calls the top, when it is due. -/
theorem call_top (hx : topTimer q c = some x) (hdue : x.when ≤ u) (hq : s.timer_events = q.map Timer.event)
    (hpc : s.pc = .loop u) : timers.step s (.call (q.idxOf x)) =
      some { s with timer_events := (pop q x).map Timer.event, pc := .calling x.event u } := by
  have hget : s.timer_events[q.idxOf x]? = some x.event := by
    rw [hq, List.getElem?_map, List.getElem?_idxOf (topTimer_spec hx).1]
    rfl
  have hpop : s.timer_events.eraseIdx (q.idxOf x) = (pop q x).map Timer.event := by
    rw [hq, List.eraseIdx_map, List.eraseIdx_idxOf_eq_erase]
    rfl
  have htop : IsTop s.timer_events x.event := by
    rw [hq]
    exact isTop_events hx
  have hdue' : x.event.when ≤ u := hdue
  show s.call _ = _
  unfold Timers.call
  rw [hget, Option.bind_some, if_pos htop, hpc]
  dsimp only
  rw [if_pos hdue', hpop]

/-- Its callback returns, and the timer is queued again or not. -/
theorem ret_top (hpc : s.pc = .calling x.event u) (hq : s.timer_events = (pop q x).map Timer.event)
    (hreads : s.Reads t.tv) : timers.step s (.ret t.ret t.tv) =
      some { s with timer_events := (requeue q x u t).map Timer.event, pc := .loop (mstime t.tv), clock := t.tv.ms } := by
  have hmap : (requeue q x u t).map Timer.event =
      if t.ret ≠ -1 then s.timer_events ++ [Timers.rearm x.event u t.ret t.tv] else s.timer_events := by
    unfold requeue
    split_ifs
    · rw [hq]
      exact List.map_append
    · exact hq.symm
  show (if s.Reads t.tv then s.ret t.ret t.tv else none) = _
  rw [if_pos hreads, Timers.ret, hpc, hmap]

/-- The loop ends when no top is due. -/
theorem leave_loop (hpc : s.pc = .loop u) (hend : ∀ e ∈ s.timer_events, IsTop s.timer_events e → u < e.when) :
    timers.step s .leave = some { s with pc := .idle } := by
  have hnone : ∀ e ∈ s.timer_events, ¬ (IsTop s.timer_events e ∧ e.when ≤ u) := fun e he h => by
    have := hend e he h.1
    omega
  show s.leave = _
  rw [Timers.leave, hpc]
  exact if_pos hnone

/-- **A call of the loop is a run of the timers** that ends outside `processTimeEvents` with its queue. -/
theorem timeLoop_exec {r : List Timer × List TimerCall} (hfits : ∀ j, (env j).tv.Fits)
    (hmono : ∀ j, (env j).tv.ms ≤ (env (j + 1)).tv.ms) (hclock : s.clock ≤ (env k).tv.ms) (hpc : s.pc = .loop u)
    (hq : s.timer_events = q.map Timer.event) (h : timeLoop env fuel k q u = some r) :
    ∃ acts s', timers.exec s acts = some s' ∧ s'.pc = .idle ∧ s'.timer_events = r.1.map Timer.event := by
  have hturns := loopTurns_iff.mpr ⟨fuel, h⟩
  clear h
  induction hturns generalizing s with
  | @stop k q u hlate =>
    refine ⟨[.leave], { s with pc := .idle }, ?_, rfl, hq⟩
    have hleave : timers.step s .leave = some { s with pc := .idle } := by
      refine leave_loop hpc fun e he htop => ?_
      rw [hq] at he htop
      obtain ⟨y, hy, -⟩ := List.mem_map.mp he
      obtain ⟨x, hx⟩ := topTimer_of_mem (c := (env k).pick) hy
      have hle := htop x.event (List.mem_map_of_mem (topTimer_spec hx).1)
      exact Int.lt_of_lt_of_le (hlate x hx) hle
    rw [exec_cons, hleave]
    rfl
  | @turn k q u x r hx hdue hrest ih =>
    have hcall := call_top hx hdue hq hpc
    have hret := ret_top (s := { s with timer_events := (pop q x).map Timer.event, pc := .calling x.event u })
      (t := env k) rfl rfl ⟨hfits k, hclock⟩
    obtain ⟨acts, s', hexec, hidle, hev⟩ := ih
      (s := { s with
        timer_events := (requeue q x u (env k)).map Timer.event
        pc := .loop (mstime (env k).tv)
        clock := (env k).tv.ms }) (hmono k) rfl rfl
    refine ⟨.call (q.idxOf x) :: .ret (env k).ret (env k).tv :: acts, s', ?_, hidle, hev⟩
    rw [exec_cons, hcall, Option.bind_some, exec_cons, hret, Option.bind_some]
    exact hexec

end Run

end BeanRaft.Event
