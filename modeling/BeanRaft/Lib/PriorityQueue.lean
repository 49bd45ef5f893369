import Mathlib.Data.List.MinMax

/-!
# BeanRaft.Lib.PriorityQueue — a priority queue as the bag of its elements

* `top key q c`: the element that `top()` returns.  Its `key` is a largest one; the order of insertion and the layout of
  the heap decide between equal keys, and here the number `c` does.
* `top_spec`, `top_none`: what a returned element is, and when there is none.
* `pop q x`, `emplace q x`: the queue without its top, and with one more element.
-/

namespace BeanRaft.PriorityQueue

variable {α β : Type} [LinearOrder β] (key : α → β)

/-- The elements with a largest key. -/
def tops (q : List α) : List α := q.filter fun x => decide (∀ y ∈ q, key y ≤ key x)

def top (q : List α) (c : Nat) : Option α := (tops key q)[c % (tops key q).length]?

def pop [DecidableEq α] (q : List α) (x : α) : List α := q.erase x

def emplace (q : List α) (x : α) : List α := q ++ [x]

variable {key} {q : List α} {c : Nat} {x y : α}

theorem mem_tops : x ∈ tops key q ↔ x ∈ q ∧ ∀ y ∈ q, key y ≤ key x := by
  unfold tops
  rw [List.mem_filter, decide_eq_true_iff]

theorem tops_ne_nil (h : q ≠ []) : tops key q ≠ [] := by
  intro hnil
  cases hm : q.argmax key with
  | none => exact h (List.argmax_eq_none.mp hm)
  | some m =>
    have hmem : m ∈ tops key q :=
      mem_tops.mpr ⟨List.argmax_mem hm, fun y hy => List.le_of_mem_argmax hy hm⟩
    rw [hnil] at hmem
    exact List.not_mem_nil hmem

/-- The top is in the queue, and no key is larger. -/
theorem top_spec (h : top key q c = some x) : x ∈ q ∧ ∀ y ∈ q, key y ≤ key x :=
  mem_tops.mp (List.mem_of_getElem? h)

/-- Any element with a largest key can be the top. -/
theorem exists_top (hx : x ∈ q) (hmax : ∀ y ∈ q, key y ≤ key x) : ∃ c, top key q c = some x := by
  obtain ⟨i, hi, hget⟩ := List.mem_iff_getElem.mp (mem_tops.mpr ⟨hx, hmax⟩)
  refine ⟨i, ?_⟩
  unfold top
  rw [Nat.mod_eq_of_lt hi, List.getElem?_eq_getElem hi, hget]

/-- Only an empty queue has no top. -/
theorem top_none : top key q c = none ↔ q = [] := by
  constructor
  · intro h
    by_contra hne
    have hpos : 0 < (tops key q).length := List.length_pos_of_ne_nil (tops_ne_nil hne)
    have hle := List.getElem?_eq_none_iff.mp h
    have := Nat.mod_lt c hpos
    omega
  · rintro rfl
    rfl

/-- A queue with an element has a top. -/
theorem top_of_mem (hy : y ∈ q) : ∃ x, top key q c = some x :=
  Option.ne_none_iff_exists'.mp fun hnone => List.ne_nil_of_mem hy (top_none.mp hnone)

/-- When some key is above a bound, the top's is. -/
theorem top_gt {b : β} (h : top key q c = some x) (hy : y ∈ q) (hb : b < key y) : b < key x :=
  lt_of_lt_of_le hb ((top_spec h).2 y hy)

variable [DecidableEq α]

theorem pop_subset : pop q x ⊆ q := List.erase_subset

/-- The queue is its top and the rest. -/
theorem perm_pop (h : x ∈ q) : q.Perm (x :: pop q x) := List.perm_cons_erase h

theorem mem_pop_of_ne (hy : y ∈ q) (hne : y ≠ x) : y ∈ pop q x := (List.mem_erase_of_ne hne).mpr hy

end BeanRaft.PriorityQueue
