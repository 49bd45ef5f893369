import Mathlib.Data.List.Nodup
import Mathlib.Data.Nat.Count
import BeanRaft.Event.TimeLoop

/-!
# BeanRaft.Event.Due — are the due timers served, and in order?

* `ServedInOrder`: what a call of `processTimeEvents` that returns owes to the timers, outside the clock-skew branch.
* `LoopTurns.notEarly`, `LoopTurns.leaves`, `LoopTurns.pending`: what the loop always keeps.
* `AtTurn`: the queue at a turn, when all timers were queued with one due time.
* `timeEventCompare` puts the timer with the largest `when` on top.  So one timer that is not due keeps all others
  waiting, and due timers are called from the latest to the earliest: `servedCall_iff`.
-/

namespace BeanRaft.Event

open Lts CInt PriorityQueue

/-- The first call of each timer whose number is not in `seen`. -/
def firstCalls (seen : List Nat) : List TimerCall → List TimerCall
  | [] => []
  | c :: calls =>
    if c.timer.id ∈ seen then firstCalls seen calls else c :: firstCalls (c.timer.id :: seen) calls

/-- A call at the reading `u` with the queue `q` returns with the queue `r.1` after the calls `r.2`. -/
structure ServedInOrder (q : List Timer) (u : Int) (r : List Timer × List TimerCall) : Prop where
  all : ∀ x ∈ q, x.when ≤ u → ∃ c ∈ r.2, c.timer.id = x.id
  notEarly : ∀ c ∈ r.2, ∃ v, c.reading = some v ∧ c.timer.when ≤ v
  /-- The first calls of the timers that are due at the start. -/
  ordered : ((firstCalls [] r.2).filter fun c => c.timer.when ≤ u).Pairwise fun c d => c.timer.when ≤ d.timer.when
  leaves : ∀ x ∈ q, x.id ∉ r.1.map Timer.id → ∃ c ∈ r.2, c.timer.id = x.id ∧ c.ret = -1
  pending : ∀ x ∈ q, u < x.when → x ∈ r.1

/-- Every return of the call, whichever of the timers with one `when` is on top, serves the timers in order. -/
def ServedCall (content : List TimeEvent) (tv : Timeval) (env : Nat → Turn) (last_time now : Int) : Prop :=
  ∀ pick fuel r, processTimeEvents (withPicks env pick) fuel last_time now tv (numbered content) = some r →
    ServedInOrder (numbered content) (mstime tv) r

/-- 1 when the timer that was called last is queued again. -/
def held (env : Nat → Turn) : Nat → Nat
  | 0 => 0
  | k + 1 => if (env k).ret = -1 then 0 else 1

/-- Of `n` timers one may be waiting for its first call at the turn `k`: fewer than `n` have left the queue or are the one
that was called last. -/
def Waiting (env : Nat → Turn) (n k : Nat) : Prop := Nat.count (fun i => (env i).ret = -1) k + held env k < n

/-- No timer is due, or all have one due time and no reading is below it while a timer may be waiting. -/
def InOneTime (content : List TimeEvent) (tv : Timeval) (env : Nat → Turn) : Prop :=
  (∀ e ∈ content, mstime tv < e.when) ∨
    ∃ w, (∀ e ∈ content, e.when = w) ∧ ∀ k, Waiting env content.length k → w ≤ readings tv env k

section Loop

variable {env : Nat → Turn} {fuel k : Nat} {q : List Timer} {u w : Int} {x : Timer} {r : List Timer × List TimerCall}

/-! ## What every call keeps -/

theorem LoopTurns.notEarly (h : LoopTurns env k q u r) : ∀ c ∈ r.2, ∃ v, c.reading = some v ∧ c.timer.when ≤ v := by
  induction h with
  | stop => simp
  | @turn k q u x r hx hdue hrest ih =>
    intro c hc
    rcases List.mem_cons.mp hc with rfl | hc
    · exact ⟨u, rfl, hdue⟩
    · exact ih c hc

/-- A number that is not in the queue any more belongs to a timer whose callback returned -1. -/
theorem LoopTurns.leaves (h : LoopTurns env k q u r) :
    ∀ i ∈ q.map Timer.id, i ∉ r.1.map Timer.id → ∃ c ∈ r.2, c.timer.id = i ∧ c.ret = -1 := by
  induction h with
  | stop =>
    intro i hi hno
    exact absurd hi hno
  | @turn k q u x r hx hdue hrest ih =>
    intro i hi hno
    have hids := (ids_requeue (u := u) (t := env k) (topTimer_spec hx).1).mem_iff.mp hi
    have hlater : i ∈ (requeue q x u (env k)).map Timer.id →
        ∃ c ∈ ⟨x, some u, (env k).ret⟩ :: r.2, c.timer.id = i ∧ c.ret = -1 := by
      intro hin
      obtain ⟨c, hc, hcall⟩ := ih i hin hno
      exact ⟨c, List.mem_cons_of_mem _ hc, hcall⟩
    split_ifs at hids with hret
    · rcases List.mem_cons.mp hids with rfl | hin
      · exact ⟨_, List.mem_cons_self, rfl, hret⟩
      · exact hlater hin
    · exact hlater hids

/-- A timer that is not due is on top, or one that is due still later: the loop ends at once. -/
theorem LoopTurns.stops (h : LoopTurns env k q u r) (hx : x ∈ q) (hlate : u < x.when) : r = (q, []) := by
  cases h with
  | stop => rfl
  | turn hy hdue =>
    have hgt := top_gt hy hx hlate
    omega

theorem LoopTurns.pending (h : LoopTurns env k q u r) : ∀ x ∈ q, u < x.when → x ∈ r.1 := by
  intro x hx hlate
  rw [h.stops hx hlate]
  exact hx

/-! ## The first calls -/

/-- The first call of a timer is that of the timer as it was queued at the start. -/
theorem firstCalls_mem (h : LoopTurns env k q u r) (l : List Nat) :
    ∀ c ∈ firstCalls l r.2, c.timer ∈ q ∧ c.timer.id ∉ l := by
  induction h generalizing l with
  | stop => simp [firstCalls]
  | @turn k q u x r hx hdue hrest ih =>
    intro c hc
    -- what is called later was queued before this turn, or its number is seen
    have later : ∀ l', x.id ∈ l' → l ⊆ l' → c ∈ firstCalls l' r.2 → c.timer ∈ q ∧ c.timer.id ∉ l := by
      intro l' hself hsub hc'
      obtain ⟨hmem, hnew⟩ := ih l' c hc'
      rcases mem_requeue hmem with hmem | hre
      · exact ⟨hmem, fun hs => hnew (hsub hs)⟩
      · rw [hre] at hnew
        exact absurd hself hnew
    simp only [firstCalls] at hc
    split_ifs at hc with hseen
    · exact later l hseen (List.Subset.refl _) hc
    · rcases List.mem_cons.mp hc with rfl | hc
      · exact ⟨(topTimer_spec hx).1, hseen⟩
      · exact later _ List.mem_cons_self (List.subset_cons_self _ _) hc

/-- A timer that is called at all has a first call, as it was queued at the start. -/
theorem exists_firstCall (h : LoopTurns env k q u r) (hq : (q.map Timer.id).Nodup) {l : List Nat}
    (hx : x ∈ q) (hnew : x.id ∉ l) (hc : ∃ c ∈ r.2, c.timer.id = x.id) : ∃ c ∈ firstCalls l r.2, c.timer = x := by
  induction h generalizing l with
  | stop =>
    obtain ⟨c, hc, -⟩ := hc
    exact absurd hc List.not_mem_nil
  | @turn k q u y r hy hdue hrest ih =>
    obtain ⟨c, hc, hid⟩ := hc
    have hymem := (topTimer_spec hy).1
    by_cases hxy : x = y
    · subst hxy
      refine ⟨⟨x, some u, (env k).ret⟩, ?_, rfl⟩
      simp only [firstCalls, if_neg hnew]
      exact List.mem_cons_self
    · have hne : x.id ≠ y.id := fun he => hxy (List.inj_on_of_nodup_map hq hx hymem he)
      have hlater : ∃ c ∈ r.2, c.timer.id = x.id := by
        rcases List.mem_cons.mp hc with rfl | hc
        · exact absurd hid (Ne.symm hne)
        · exact ⟨c, hc, hid⟩
      have hx' : x ∈ requeue q y u (env k) := mem_requeue_of_ne hx hxy
      have hq' := nodup_requeue (u := u) (t := env k) hymem hq
      simp only [firstCalls]
      split_ifs with hseen
      · exact ih hq' hx' hnew hlater
      · obtain ⟨d, hd, hdx⟩ := ih (l := y.id :: l) hq' hx' (List.not_mem_cons_of_ne_of_not_mem hne hnew) hlater
        exact ⟨d, List.mem_cons_of_mem _ hd, hdx⟩

end Loop

/-! ## One due time -/

/-- At the turn `k` the queue holds the timers with the due time `w`, and the one with the number `o` that was queued
again at the last reading. -/
structure AtTurn (env : Nat → Turn) (tv : Timeval) (n : Nat) (w : Int) (k : Nat) (o : Option Nat) (q : List Timer) :
    Prop where
  ids : (q.map Timer.id).Nodup
  count : q.length + Nat.count (fun i => (env i).ret = -1) k = n
  whens : ∀ z ∈ q, z.when = if some z.id = o then readings tv env k else w
  moved : (o = none ∧ held env k = 0) ∨ ∃ i ∈ q.map Timer.id, o = some i ∧ held env k = 1

section OneTime

variable {env : Nat → Turn} {tv : Timeval} {fuel n k c : Nat} {w : Int} {o : Option Nat} {q : List Timer} {x : Timer}
  {r : List Timer × List TimerCall}

/-- The number of the timer that is queued again after a turn. -/
def requeued (x : Timer) (t : Turn) : Option Nat := if t.ret = -1 then none else some x.id

theorem ne_requeued {z : Timer} {t : Turn} (hne : z.id ≠ x.id) : some z.id ≠ requeued x t := by
  unfold requeued
  split_ifs
  · exact Option.some_ne_none _
  · exact fun he => hne (Option.some.inj he)

theorem requeue_ne (hx : x ∈ q) (hq : (q.map Timer.id).Nodup) {z : Timer} {u : Int} {t : Turn}
    (hz : z ∈ requeue q x u t) (hne : some z.id ≠ requeued x t) : z ∈ q ∧ z.id ≠ x.id := by
  rcases mem_requeue_cases hx hq hz with hz | ⟨rfl, hret⟩
  · exact hz
  · unfold requeued at hne
    rw [if_neg hret] at hne
    exact absurd rfl hne

theorem atTurn_zero {content : List TimeEvent} (h : ∀ e ∈ content, e.when = w) :
    AtTurn env tv content.length w 0 none (numbered content) := by
  refine ⟨numbered_nodup content, ?_, fun z hz => ?_, .inl ⟨rfl, rfl⟩⟩
  · rw [length_numbered, Nat.count_zero, Nat.add_zero]
  · exact (forall_numbered (p := fun t => t = w)).mpr h z hz

/-- One turn, at a reading that is not below the due time. -/
theorem AtTurn.next (h : AtTurn env tv n w k o q) (hx : topTimer q c = some x) (hw : w ≤ readings tv env k) :
    AtTurn env tv n w (k + 1) (requeued x (env k)) (requeue q x (readings tv env k) (env k)) := by
  obtain ⟨hmem, hmax⟩ := topTimer_spec hx
  refine ⟨nodup_requeue hmem h.ids, ?_, fun z hz => ?_, ?_⟩
  · have hlen := length_requeue (u := readings tv env k) (t := env k) hmem
    have hcount := h.count
    rw [Nat.count_succ]
    omega
  · rcases mem_requeue_cases hmem h.ids hz with ⟨hzq, hne⟩ | ⟨rfl, hret⟩
    · -- if `z` was the timer queued last, it is not on top, and the last reading is `w` itself
      have hzw := h.whens z hzq
      have hxw := h.whens x hmem
      have hle := hmax z hzq
      rw [if_neg (ne_requeued hne)]
      by_cases hzo : some z.id = o
      · have hxo : some x.id ≠ o := fun he => hne (Option.some.inj (hzo.trans he.symm))
        rw [if_pos hzo] at hzw
        rw [if_neg hxo] at hxw
        omega
      · rw [if_neg hzo] at hzw
        exact hzw
    · have hself : some (x.rearm (readings tv env k) (env k)).id = requeued x (env k) := by
        unfold requeued
        rw [if_neg hret]
        rfl
      rw [if_pos hself]
      rfl
  · unfold requeued held
    by_cases hret : (env k).ret = -1
    · exact .inl ⟨if_pos hret, if_pos hret⟩
    · refine .inr ⟨x.id, ?_, if_neg hret, if_neg hret⟩
      unfold requeue
      rw [if_pos hret]
      rw [emplace, List.map_append]
      exact List.mem_append_right _ (List.mem_singleton_self x.id)

/-- A timer other than the one that was called last is in the queue when one may be waiting, and then only. -/
theorem AtTurn.waiting_iff (h : AtTurn env tv n w k o q) : Waiting env n k ↔ ∃ z ∈ q, some z.id ≠ o := by
  have hcount := h.count
  unfold Waiting
  rcases h.moved with ⟨rfl, hheld⟩ | ⟨i, hi, rfl, hheld⟩
  · constructor
    · intro hlt
      obtain ⟨z, hz⟩ := List.exists_mem_of_length_pos (l := q) (by omega)
      exact ⟨z, hz, Option.some_ne_none _⟩
    · rintro ⟨z, hz, -⟩
      have := List.length_pos_of_mem hz
      omega
  · constructor
    · intro hlt
      by_contra hall
      simp only [not_exists, not_and, not_not] at hall
      have hsub : q.map Timer.id ⊆ [i] := fun j hj => by
        obtain ⟨z, hz, rfl⟩ := List.mem_map.mp hj
        exact List.mem_singleton.mpr (Option.some.inj (hall z hz))
      have hle := (h.ids.subperm hsub).length_le
      rw [List.length_map, List.length_singleton] at hle
      omega
    · rintro ⟨z, hz, hne⟩
      have hnd : [z.id, i].Nodup := List.nodup_cons.mpr
        ⟨fun he => hne (congrArg some (List.mem_singleton.mp he)), List.nodup_singleton i⟩
      have hsub : [z.id, i] ⊆ q.map Timer.id :=
        List.cons_subset.mpr ⟨List.mem_map_of_mem hz, List.cons_subset.mpr ⟨hi, List.nil_subset _⟩⟩
      have hle := (hnd.subperm hsub).length_le
      rw [List.length_map] at hle
      have htwo : [z.id, i].length = 2 := rfl
      omega

/-- While no reading is below the due time, every timer that waits is called. -/
theorem AtTurn.serves {u : Int} (h : AtTurn env tv n w k o q) (hr : LoopTurns env k q u r) (hu : u = readings tv env k)
    (hclock : ∀ j, Waiting env n j → w ≤ readings tv env j) :
    ∀ z ∈ q, some z.id ≠ o → ∃ c ∈ r.2, c.timer.id = z.id := by
  induction hr generalizing o with
  | @stop k q u hlate =>
    intro z hz hne
    have hw := hclock k (h.waiting_iff.mpr ⟨z, hz, hne⟩)
    obtain ⟨x, hx⟩ := topTimer_of_mem (c := (env k).pick) hz
    have hxlate := hlate x hx
    have hxw := h.whens x (topTimer_spec hx).1
    split_ifs at hxw <;> omega
  | @turn k q u x r hx hdue hrest ih =>
    intro z hz hne
    subst hu
    have hw := hclock k (h.waiting_iff.mpr ⟨z, hz, hne⟩)
    by_cases hzx : z.id = x.id
    · exact ⟨_, List.mem_cons_self, hzx.symm⟩
    · have hz' : z ∈ requeue q x (readings tv env k) (env k) := mem_requeue_of_ne hz fun he => hzx (he ▸ rfl)
      obtain ⟨d, hd, hid⟩ := ih (h.next hx hw) rfl z hz' (ne_requeued hzx)
      exact ⟨d, List.mem_cons_of_mem _ hd, hid⟩

theorem held_succ : held env (k + 1) = if (env k).ret = -1 then 0 else 1 := rfl

theorem held_le (env : Nat → Turn) (k : Nat) : held env k ≤ 1 := by
  cases k with
  | zero => exact Nat.zero_le 1
  | succ k =>
    rw [held_succ]
    split_ifs
    · exact Nat.zero_le 1
    · exact Nat.le_refl 1

theorem waiting_antitone {j : Nat} (hj : j ≤ k) (h : Waiting env n k) : Waiting env n j := by
  induction k with
  | zero => rwa [Nat.le_zero.mp hj]
  | succ k ih =>
    rcases Nat.lt_or_ge k j with hlt | hle
    · rwa [Nat.le_antisymm hj hlt]
    · refine ih hle ?_
      have hheld := held_le env k
      unfold Waiting at h ⊢
      rw [Nat.count_succ, held_succ] at h
      split_ifs at h <;> omega

/-- The timer called last is on top, or any other when it left the queue. -/
theorem AtTurn.exists_top (h : AtTurn env tv n w k o q) (hw : w ≤ readings tv env k) (hwait : Waiting env n k) :
    ∃ c x, topTimer q c = some x ∧ ∀ z : Timer, some z.id = o → z.id = x.id := by
  rcases h.moved with ⟨rfl, -⟩ | ⟨i, hi, rfl, -⟩
  · obtain ⟨x, hx, -⟩ := h.waiting_iff.mp hwait
    have hmax : ∀ y ∈ q, y.when ≤ x.when := fun y hy => by
      rw [h.whens y hy, h.whens x hx]
      exact Int.le_refl _
    obtain ⟨c, hc⟩ := exists_topTimer hx hmax
    exact ⟨c, x, hc, fun z hz => absurd hz (Option.some_ne_none _)⟩
  · obtain ⟨x, hx, rfl⟩ := List.mem_map.mp hi
    have hmax : ∀ y ∈ q, y.when ≤ x.when := fun y hy => by
      rw [h.whens y hy, h.whens x hx, if_pos rfl]
      split_ifs <;> omega
    obtain ⟨c, hc⟩ := exists_topTimer hx hmax
    exact ⟨c, x, hc, fun z hz => Option.some.inj hz⟩

/-- When the clock falls below the due time while a timer may be waiting, then for some choices of `top()` the call ends
and one was never called. -/
theorem AtTurn.misses {K : Nat} (h : AtTurn env tv n w k o q) (hk : k ≤ K)
    (hbefore : ∀ j, j < K → w ≤ readings tv env j) (hwait : Waiting env n K) (hback : readings tv env K < w) :
    ∃ pick r, LoopTurns (withPicks env pick) k q (readings tv env k) r ∧
      ∃ z ∈ q, some z.id ≠ o ∧ ∀ c ∈ r.2, c.timer.id ≠ z.id := by
  obtain ⟨d, rfl⟩ := Nat.exists_eq_add_of_le hk
  induction d generalizing k o q with
  | zero =>
    obtain ⟨z, hz, hne⟩ := h.waiting_iff.mp hwait
    have hzw := h.whens z hz
    rw [if_neg hne] at hzw
    have hback' : readings tv env k < z.when := hzw ▸ hback
    have hlate : ∀ x, topTimer q (env k).pick = some x → readings tv env k < x.when := fun x hx => top_gt hx hz hback'
    exact ⟨fun i => (env i).pick, (q, []), .stop hlate, z, hz, hne, fun c hc => absurd hc List.not_mem_nil⟩
  | succ d ih =>
    have hw := hbefore k (by omega)
    obtain ⟨c, x, hx, hown⟩ := h.exists_top hw (waiting_antitone hk hwait)
    have hmem := (topTimer_spec hx).1
    have hdue : x.when ≤ readings tv env k := by
      have hxw := h.whens x hmem
      split_ifs at hxw <;> omega
    have hsucc : k + (d + 1) = k + 1 + d := by omega
    rw [hsucc] at hbefore hwait hback
    obtain ⟨pick, r, hr, z, hz, hne, hnever⟩ := ih (h.next hx hw) (Nat.le_add_right _ _) hbefore hwait hback
    obtain ⟨hzq, hzx⟩ := requeue_ne hmem h.ids hz hne
    -- the same choices from the next turn on, and `c` at this one
    have hrest : LoopTurns (withPicks env (Function.update pick k c)) (k + 1) (requeue q x (readings tv env k) (env k))
        (readings tv env (k + 1)) r := by
      refine hr.congr fun j hj => ?_
      unfold withPicks
      rw [Function.update_of_ne (by omega)]
    have hx' : topTimer q (withPicks env (Function.update pick k c) k).pick = some x := by
      unfold withPicks
      rw [Function.update_self]
      exact hx
    refine ⟨Function.update pick k c, (r.1, ⟨x, some (readings tv env k), (env k).ret⟩ :: r.2),
      .turn hx' hdue hrest, z, hzq, fun he => hzx (hown z he), fun e he => ?_⟩
    rcases List.mem_cons.mp he with rfl | he
    · exact fun heq => hzx heq.symm
    · exact hnever e he

end OneTime

/-! ## The property -/

section Property

variable {env : Nat → Turn} {fuel : Nat} {tv : Timeval} {content : List TimeEvent} {last_time now : Int}
  {r : List Timer × List TimerCall}

/-- When the due timers are served in order, none is due, or all have one due time. -/
theorem oneTime_of_served (h : LoopTurns env 0 (numbered content) (mstime tv) r)
    (hs : ServedInOrder (numbered content) (mstime tv) r) :
    (∀ e ∈ content, mstime tv < e.when) ∨ ∃ w, w ≤ mstime tv ∧ ∀ e ∈ content, e.when = w := by
  by_cases hnone : ∀ x ∈ numbered content, mstime tv < x.when
  · exact .inl (forall_numbered.mp hnone)
  right
  simp only [not_forall] at hnone
  obtain ⟨x, hx, hdue⟩ := hnone
  obtain ⟨c, hc, -⟩ := hs.all x hx (Int.not_lt.mp hdue)
  have hall := hs.all
  have hord := hs.ordered
  have hfirst := fun z hz => exists_firstCall (x := z) (l := []) h (numbered_nodup content) hz List.not_mem_nil
  cases h with
  | stop => exact absurd hc List.not_mem_nil
  | @turn _ _ _ y r hy hydue =>
    -- the first call is that of a timer with the largest `when`, and all others come after it
    obtain ⟨hymem, hmax⟩ := topTimer_spec hy
    refine ⟨y.when, hydue, (forall_numbered (p := fun t => t = y.when)).mp fun z hz => ?_⟩
    have hzle := hmax z hz
    by_cases hzy : z = y
    · rw [hzy]
    obtain ⟨d, hd, hdz⟩ := hfirst z hz (hall z hz (Int.le_trans hzle hydue))
    simp only [firstCalls, List.not_mem_nil, if_false] at hd hord
    rw [List.filter_cons_of_pos (by simpa using hydue)] at hord
    rcases List.mem_cons.mp hd with rfl | hd
    · exact absurd hdz.symm hzy
    · have hle : y.when ≤ d.timer.when := by
        refine List.rel_of_pairwise_cons hord (List.mem_filter.mpr ⟨hd, ?_⟩)
        rw [hdz]
        simpa using Int.le_trans hzle hydue
      rw [hdz] at hle
      omega

/-- Timers that are not due are left alone. -/
theorem served_of_none (h : LoopTurns env 0 (numbered content) (mstime tv) r)
    (hnone : ∀ e ∈ content, mstime tv < e.when) : ServedInOrder (numbered content) (mstime tv) r := by
  have hnone' := forall_numbered.mpr hnone
  refine ⟨fun x hx hdue => ?_, h.notEarly, ?_, fun x hx => h.leaves x.id (List.mem_map_of_mem hx), h.pending⟩
  · have := hnone' x hx
    omega
  · rw [List.filter_eq_nil_iff.mpr fun c hc => ?_]
    · exact List.Pairwise.nil
    · have := hnone' c.timer (firstCalls_mem h [] c hc).1
      simpa using this

/-- Timers with one due time are served as long as no reading is below it. -/
theorem served_of_oneTime {w : Int} (h : LoopTurns env 0 (numbered content) (mstime tv) r)
    (hsame : ∀ e ∈ content, e.when = w) (hclock : ∀ k, Waiting env content.length k → w ≤ readings tv env k) :
    ServedInOrder (numbered content) (mstime tv) r := by
  have hsame' := (forall_numbered (p := fun t => t = w)).mpr hsame
  refine ⟨fun x hx _ => (atTurn_zero hsame).serves h rfl hclock x hx (Option.some_ne_none _), h.notEarly, ?_,
    fun x hx => h.leaves x.id (List.mem_map_of_mem hx), h.pending⟩
  refine List.pairwise_of_forall_mem_list fun c hc d hd => ?_
  have hmem := firstCalls_mem h []
  rw [hsame' _ (hmem c (List.mem_filter.mp hc).1).1, hsame' _ (hmem d (List.mem_filter.mp hd).1).1]

theorem processTimeEvents_loop (hskew : ¬ now < last_time) {q : List Timer} :
    processTimeEvents env fuel last_time now tv q = timeLoop env fuel 0 q (mstime tv) := if_neg hskew

theorem readings_withPicks (pick : Nat → Nat) (k : Nat) : readings tv (withPicks env pick) k = readings tv env k := by
  cases k with
  | zero => rfl
  | succ k => rfl

/-- The callbacks are the same, whatever is on top. -/
theorem waiting_withPicks (pick : Nat → Nat) (n k : Nat) : Waiting (withPicks env pick) n k ↔ Waiting env n k := by
  have hheld : held (withPicks env pick) k = held env k := by
    cases k with
    | zero => rfl
    | succ k => rfl
  unfold Waiting
  rw [hheld]
  rfl

/-- When timers with one due time are served, the clock is not below it while one may be waiting. -/
theorem clock_of_served {w : Int} (hskew : ¬ now < last_time) (hsame : ∀ e ∈ content, e.when = w) (hw : w ≤ mstime tv)
    (hs : ServedCall content tv env last_time now) : ∀ k, Waiting env content.length k → w ≤ readings tv env k := by
  intro K hwait
  by_contra hback
  -- the first turn at which the clock is too low
  have hex : ∃ k, Waiting env content.length k ∧ ¬ w ≤ readings tv env k := ⟨K, hwait, hback⟩
  classical
  obtain ⟨hwait', hback'⟩ := Nat.find_spec hex
  have hbefore : ∀ j, j < Nat.find hex → w ≤ readings tv env j := by
    intro j hj
    by_contra hlow
    exact Nat.find_min hex hj ⟨waiting_antitone (Nat.le_of_lt hj) hwait', hlow⟩
  obtain ⟨pick, r', hr', z, hz, -, hnever⟩ :=
    (atTurn_zero hsame).misses (Nat.zero_le _) hbefore hwait' (Int.not_le.mp hback')
  obtain ⟨fuel', hr⟩ := loopTurns_iff.mp hr'
  have hcall : processTimeEvents (withPicks env pick) fuel' last_time now tv (numbered content) = some r' :=
    (processTimeEvents_loop hskew).trans hr
  have hdue : ∀ e ∈ content, e.when ≤ mstime tv := by
    intro e he
    rw [hsame e he]
    exact hw
  have hzw : z.when ≤ mstime tv := (forall_numbered (p := fun t => t ≤ mstime tv)).mpr hdue z hz
  obtain ⟨c, hc, hid⟩ := (hs pick fuel' r' hcall).all z hz hzw
  exact hnever c hc hid

/-- **When the due timers are served in order**, in a call that returns: exactly when no timer is due, or all have one due
time and the clock does not fall below it while one of them may be waiting for its first call. -/
theorem servedCall_iff (content : List TimeEvent) (tv : Timeval) (env : Nat → Turn) (last_time now : Int)
    (hskew : ¬ now < last_time) (fuel : Nat) (r : List Timer × List TimerCall)
    (h : processTimeEvents env fuel last_time now tv (numbered content) = some r) :
    ServedCall content tv env last_time now ↔ InOneTime content tv env := by
  constructor
  · intro hs
    have hrun := h
    rw [processTimeEvents_loop hskew] at hrun
    rcases oneTime_of_served (loopTurns_iff.mpr ⟨fuel, hrun⟩) (hs (fun k => (env k).pick) fuel r h) with
      hnone | ⟨w, hw, hsame⟩
    · exact .inl hnone
    · exact .inr ⟨w, hsame, clock_of_served hskew hsame hw hs⟩
  · intro hone pick fuel r hr
    rw [processTimeEvents_loop hskew] at hr
    have hturns := loopTurns_iff.mpr ⟨fuel, hr⟩
    rcases hone with hnone | ⟨w, hsame, hclock⟩
    · exact served_of_none hturns hnone
    · refine served_of_oneTime hturns hsame fun k hwait => ?_
      rw [readings_withPicks]
      exact hclock k ((waiting_withPicks pick _ k).mp hwait)

/-- A timer that is due, one that is not, and callbacks that return -1. -/
def onePending : List TimeEvent := [⟨1, 0, 0, 1⟩, ⟨100, 0, 0, 100⟩]

def lastCalls : Nat → Turn := fun _ => ⟨0, -1, ⟨0, 5000⟩⟩

/-- The due timer waits for the other. -/
theorem onePending_iff : (¬ (5 : Int) < 0 ∧
    processTimeEvents lastCalls 1 0 5 ⟨0, 5000⟩ (numbered onePending) = some (numbered onePending, [])) ∧
    (ServedCall onePending ⟨0, 5000⟩ lastCalls 0 5 ↔ InOneTime onePending ⟨0, 5000⟩ lastCalls) :=
  ⟨⟨by decide, by decide⟩, servedCall_iff onePending ⟨0, 5000⟩ lastCalls 0 5 (by decide) 1 (numbered onePending, [])
    (by decide)⟩

theorem onePending_waits : ¬ ∀ content tv env last_time now, ¬ now < last_time → ServedCall content tv env last_time now := by
  intro h
  have hs := h onePending ⟨0, 5000⟩ lastCalls 0 5 (by decide) (fun _ => 0) 1 (numbered onePending, []) (by decide)
  obtain ⟨c, hc, -⟩ := hs.all ⟨0, ⟨1, 0, 0, 1⟩⟩ (by decide) (by decide)
  exact absurd hc List.not_mem_nil

end Property

end BeanRaft.Event
