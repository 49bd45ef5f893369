import Mathlib.Data.List.Basic
import Mathlib.Data.Option.Basic
import Mathlib.Logic.Function.Basic

/-!
# BeanRaft.Lib.Heap — blocks of memory under addresses that are never used twice

* `Heap β`: the blocks by address.  A freed address stays dead, so a pointer to it is caught at its next use: `get`,
  `modify` and `free` are partial.  `get_put` and `get_alloc` say what each operation does to the map `get`.
* `Moved`: what a block moved to another address, or changed at its own, does to the map `get`; moves compose.
* `read`, `write`: bounds-checked access to a buffer, `none` when it leaves the buffer.
-/

namespace BeanRaft.Lib

variable {β : Type}

/-- The blocks by address; `none` is at the address of a freed one. -/
structure Heap (β : Type) where
  blocks : List (Option β)
  deriving DecidableEq, Repr

namespace Heap

variable (h : Heap β)

/-- The live block at an address. -/
def get (p : Nat) : Option β := h.blocks[p]?.join

/-- The address of the next block. -/
def next : Nat := h.blocks.length

def alloc (b : β) : Heap β := ⟨h.blocks ++ [some b]⟩

def put (p : Nat) (o : Option β) : Heap β := ⟨h.blocks.set p o⟩

def modify (p : Nat) (f : β → Option β) : Option (Heap β) :=
  (h.get p).bind fun b => (f b).map fun b' => h.put p (some b')

def free (p : Nat) : Option (Heap β) := (h.get p).map fun _ => h.put p none

variable {h} {p q : Nat} {b : β} {o : Option β}

theorem lt_next (hg : h.get p = some b) : p < h.next := by
  by_contra hle
  have hnone : h.blocks[p]? = none := List.getElem?_eq_none (Nat.le_of_not_lt hle)
  rw [get, hnone] at hg
  simp at hg

theorem get_next : h.get h.next = none := by
  have hnone : h.blocks[h.next]? = none := List.getElem?_eq_none (Nat.le_refl _)
  rw [get, hnone]
  rfl

theorem ne_next (hg : h.get p = some b) : p ≠ h.next := by
  rintro rfl
  rw [get_next] at hg
  simp at hg

theorem get_alloc : (h.alloc b).get = Function.update h.get h.next (some b) := by
  funext q
  by_cases hq : q = h.next
  · subst hq
    rw [Function.update_self]
    simp [get, alloc, next]
  · rw [Function.update_of_ne hq]
    rcases Nat.lt_or_gt_of_ne hq with hlt | hgt
    · simp only [get, alloc]
      rw [List.getElem?_append_left hlt]
    · have h1 : h.blocks[q]? = none := List.getElem?_eq_none (Nat.le_of_lt hgt)
      have h2 : (h.blocks ++ [some b])[q]? = none := by
        refine List.getElem?_eq_none ?_
        rw [List.length_append]
        exact hgt
      simp only [get, alloc]
      rw [h1, h2]

theorem get_put (hp : p < h.next) : (h.put p o).get = Function.update h.get p o := by
  funext q
  by_cases hq : q = p
  · subst hq
    have hlt : q < h.blocks.length := hp
    rw [Function.update_self]
    simp [get, put, hlt]
  · rw [Function.update_of_ne hq]
    simp only [get, put]
    rw [List.getElem?_set_ne (Ne.symm hq)]

@[simp] theorem next_put : (h.put p o).next = h.next := by simp [next, put]

@[simp] theorem next_alloc : (h.alloc b).next = h.next + 1 := List.length_append

theorem next_modify {f : β → Option β} {h' : Heap β} (hr : h.modify p f = some h') : h'.next = h.next := by
  obtain ⟨b, -, hput⟩ := Option.bind_eq_some_iff.mp hr
  obtain ⟨b', -, rfl⟩ := Option.map_eq_some_iff.mp hput
  exact next_put

theorem next_free {h' : Heap β} (hr : h.free p = some h') : h'.next = h.next := by
  obtain ⟨b, -, rfl⟩ := Option.map_eq_some_iff.mp hr
  exact next_put

theorem free_of_get (hg : h.get p = some b) : h.free p = some (h.put p none) := by simp [free, hg]

theorem modify_of_get (hg : h.get p = some b) (f : β → Option β) :
    h.modify p f = (f b).map fun b' => h.put p (some b') := by simp [modify, hg]

theorem modify_of_dead (hg : h.get p = none) (f : β → Option β) : h.modify p f = none := by simp [modify, hg]

end Heap

/-! ## Moving a block -/

/-- The block at `p` is replaced by `b` at `q`, the same address or one that was dead. -/
structure Moved (g : Nat → Option β) (p q : Nat) (b : β) (g' : Nat → Option β) : Prop where
  fresh : q = p ∨ g q = none
  get : g' = Function.update (Function.update g p none) q (some b)

section Moved

variable {g g' g'' : Nat → Option β} {p q r : Nat} {b c : β}

theorem Moved.stay (h : g' = Function.update g p (some b)) : Moved g p p b g' := by
  refine ⟨.inl rfl, ?_⟩
  rw [h, Function.update_idem]

theorem Moved.refl (h : g p = some b) : Moved g p p b g := .stay (Function.update_eq_self_iff.mpr h.symm).symm

theorem Moved.get_self (h : Moved g p q b g') : g' q = some b := by rw [h.get, Function.update_self]

/-- The other live blocks stay where they are. -/
theorem Moved.get_other (h : Moved g p q b g') {x : Nat} (hp : x ≠ p) (hx : (g x).isSome = true) :
    g' x = g x ∧ x ≠ q := by
  have hq : x ≠ q := by
    rintro rfl
    rcases h.fresh with hqp | hnone
    · exact hp hqp
    · rw [hnone] at hx
      simp at hx
  refine ⟨?_, hq⟩
  rw [h.get, Function.update_of_ne hq, Function.update_of_ne hp]

/-- After a real move the old address is dead. -/
theorem Moved.dead (h : Moved g p q b g') (hne : q ≠ p) : g' p = none := by
  rw [h.get, Function.update_of_ne (Ne.symm hne), Function.update_self]

theorem Moved.comp (h1 : Moved g p q b g') (h2 : Moved g' q r c g'') : Moved g p r c g'' := by
  have hg' : ∀ x, x ≠ q → g' x = Function.update g p none x := fun x hx => by rw [h1.get, Function.update_of_ne hx]
  have hq : Function.update g p none q = none := by
    by_cases hqp : q = p
    · rw [hqp, Function.update_self]
    · rw [Function.update_of_ne hqp]
      exact h1.fresh.resolve_left hqp
  have hget : Function.update g' q none = Function.update g p none := by
    funext x
    by_cases hx : x = q
    · rw [hx, Function.update_self, hq]
    · rw [Function.update_of_ne hx, hg' x hx]
  refine ⟨?_, by rw [h2.get, hget]⟩
  by_cases hrp : r = p
  · exact .inl hrp
  · refine .inr ?_
    rw [← Function.update_of_ne hrp none g, ← hget]
    rcases h2.fresh with hrq | hnone
    · rw [hrq, Function.update_self]
    · by_cases hrq : r = q
      · rw [hrq, Function.update_self]
      · rw [Function.update_of_ne hrq, hnone]

end Moved

/-! ## Buffers -/

section Write

variable {buf bs : List β} {off : Nat}

/-- `buf` with `bs` written from `off` on. -/
def write (buf : List β) (off : Nat) (bs : List β) : Option (List β) :=
  if off + bs.length ≤ buf.length then some (buf.take off ++ bs ++ buf.drop (off + bs.length)) else none

/-- The `n` elements from `off` on. -/
def read (buf : List β) (off n : Nat) : Option (List β) :=
  if off + n ≤ buf.length then some ((buf.drop off).take n) else none

theorem read_some {n : Nat} (h : read buf off n = some bs) :
    off + n ≤ buf.length ∧ bs = (buf.drop off).take n ∧ bs.length = n := by
  unfold read at h
  split_ifs at h with hle
  obtain rfl := Option.some.inj h
  refine ⟨hle, rfl, ?_⟩
  rw [List.length_take, List.length_drop]
  omega

theorem write_isSome (h : off + bs.length ≤ buf.length) : ∃ buf', write buf off bs = some buf' :=
  ⟨_, if_pos h⟩

theorem write_some {buf' : List β} (h : write buf off bs = some buf') :
    off + bs.length ≤ buf.length ∧ buf' = buf.take off ++ bs ++ buf.drop (off + bs.length) := by
  unfold write at h
  split_ifs at h with hle
  exact ⟨hle, (Option.some.inj h).symm⟩

theorem length_write {buf' : List β} (h : write buf off bs = some buf') : buf'.length = buf.length := by
  obtain ⟨hle, rfl⟩ := write_some h
  simp only [List.length_append, List.length_take, List.length_drop]
  omega

/-- Up to the end of what was written. -/
theorem take_write {buf' : List β} (h : write buf off bs = some buf') :
    buf'.take (off + bs.length) = buf.take off ++ bs := by
  obtain ⟨hle, rfl⟩ := write_some h
  have hlen : (buf.take off ++ bs).length = off + bs.length := by
    rw [List.length_append, List.length_take]
    omega
  rw [← hlen, List.take_left']
  rfl

/-- What is in front of the place is left. -/
theorem take_write_of_le {buf' : List β} {k : Nat} (h : write buf off bs = some buf') (hk : k ≤ off) :
    buf'.take k = buf.take k := by
  obtain ⟨hle, rfl⟩ := write_some h
  have hlen : (buf.take off).length = off := by
    rw [List.length_take]
    omega
  rw [List.append_assoc, List.take_append_of_le_length (by omega), List.take_take, Nat.min_eq_left hk]

end Write

end BeanRaft.Lib
