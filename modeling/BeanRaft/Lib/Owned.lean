import BeanRaft.Lib.Heap
import Mathlib.Data.List.Perm.Basic

/-!
# BeanRaft.Lib.Owned — a memory as a frame and the blocks that a piece of code owns

`Owns R g l g'`: the memory `g'` is the frame `g` with one block for each entry `(p, c)` of `l` beside it, at the
address `p` and with a content that `c` describes.  A block that is allocated, moved or freed changes one entry of `l`;
the frame and the other entries stay.  When `l` is empty the memory is the frame again, so nothing is left behind.
-/

namespace BeanRaft.Lib

variable {β γ : Type}

/-- The blocks of `l` are beside the frame `g`, each at an address of its own. -/
inductive Owns (R : β → γ → Prop) (g : Nat → Option β) : List (Nat × γ) → (Nat → Option β) → Prop
  | nil : Owns R g [] g
  | cons {l : List (Nat × γ)} {g' : Nat → Option β} {p : Nat} {b : β} {c : γ} (rest : Owns R g l g')
      (fresh : g' p = none) (content : R b c) : Owns R g ((p, c) :: l) (Function.update g' p (some b))

namespace Owns

variable {R : β → γ → Prop} {g g' g'' : Nat → Option β} {l l' : List (Nat × γ)} {p q x : Nat} {b : β} {c d : γ}

theorem nil_eq (h : Owns R g [] g') : g' = g := by
  cases h
  rfl

/-- A block that is allocated at a dead address. -/
theorem alloc (h : Owns R g l g') (hq : g' q = none) (hb : R b d) (hg : g'' = Function.update g' q (some b)) :
    Owns R g ((q, d) :: l) g'' := by
  subst hg
  exact .cons h hq hb

/-- The first block, and the memory without it. -/
theorem head (h : Owns R g ((p, c) :: l) g') : ∃ b, g' p = some b ∧ R b c ∧ Owns R g l (Function.update g' p none) := by
  cases h with
  | @cons _ g0 _ b _ rest fresh content =>
    refine ⟨b, Function.update_self .., content, ?_⟩
    rw [Function.update_idem, ← fresh, Function.update_eq_self]
    exact rest

/-- The block is freed. -/
theorem free (h : Owns R g ((p, c) :: l) g') (hg : g'' = Function.update g' p none) : Owns R g l g'' := by
  obtain ⟨-, -, -, hrest⟩ := h.head
  rw [hg]
  exact hrest

/-- The block is changed, and may be at another address afterwards. -/
theorem moved (h : Owns R g ((p, c) :: l) g') (hmv : Moved g' p q b g'') (hb : R b d) :
    Owns R g ((q, d) :: l) g'' := by
  obtain ⟨b0, hp, -, hrest⟩ := h.head
  refine hrest.alloc ?_ hb hmv.get
  rcases hmv.fresh with rfl | hnone
  · exact Function.update_self ..
  · by_cases hqp : q = p
    · rw [hqp, Function.update_self]
    · rw [Function.update_of_ne hqp, hnone]

theorem swap {y : Nat × γ} {z : Nat × γ} (h : Owns R g (y :: z :: l) g') : Owns R g (z :: y :: l) g' := by
  obtain ⟨p, c⟩ := y
  obtain ⟨q, d⟩ := z
  cases h with
  | @cons _ g1 _ b _ rest fresh content =>
    cases rest with
    | @cons _ g2 _ b2 _ rest2 fresh2 content2 =>
      have hpq : p ≠ q := by
        rintro rfl
        rw [Function.update_self] at fresh
        cases fresh
      rw [Function.update_of_ne hpq] at fresh
      rw [Function.update_comm hpq.symm]
      refine .cons (.cons rest2 fresh content) ?_ content2
      rw [Function.update_of_ne hpq.symm]
      exact fresh2

/-- The order of the entries does not matter. -/
theorem perm (h : Owns R g l g') (hp : l.Perm l') : Owns R g l' g' := by
  induction hp generalizing g' with
  | nil => exact h
  | cons y _ ih =>
    obtain ⟨p, c⟩ := y
    cases h with
    | cons rest fresh content => exact .cons (ih rest) fresh content
  | swap y z l => exact h.swap
  | trans _ _ ih1 ih2 => exact ih2 (ih1 h)

/-- What is in the frame is still there. -/
theorem frame (h : Owns R g l g') (hx : g x = some b) : g' x = some b := by
  induction h with
  | nil => exact hx
  | @cons _ g0 q _ _ rest fresh _ ih =>
    have hne : x ≠ q := by
      rintro rfl
      rw [fresh] at ih
      cases ih
    rw [Function.update_of_ne hne]
    exact ih

/-- Any entry can be the first. -/
theorem front (h : Owns R g l g') (hmem : (p, c) ∈ l) : ∃ l', Owns R g ((p, c) :: l') g' := by
  obtain ⟨s, t, rfl⟩ := List.append_of_mem hmem
  exact ⟨s ++ t, h.perm List.perm_middle⟩

/-- An address of the list is not in the frame. -/
theorem fresh_of_mem (h : Owns R g l g') (hmem : (p, c) ∈ l) : g p = none := by
  obtain ⟨l', hfront⟩ := h.front hmem
  cases hfront with
  | @cons _ g0 _ _ _ rest fresh _ =>
    by_contra hne
    obtain ⟨b, hb⟩ := Option.ne_none_iff_exists'.mp hne
    rw [rest.frame hb] at fresh
    cases fresh

theorem get_of_mem (h : Owns R g l g') (hmem : (p, c) ∈ l) : ∃ b, g' p = some b ∧ R b c := by
  obtain ⟨l', hfront⟩ := h.front hmem
  obtain ⟨b, hb, hR, -⟩ := hfront.head
  exact ⟨b, hb, hR⟩

/-- Two entries are at two addresses. -/
theorem nodup (h : Owns R g l g') : (l.map Prod.fst).Nodup := by
  induction h with
  | nil => exact List.nodup_nil
  | cons rest fresh _ ih =>
    refine List.nodup_cons.mpr ⟨fun hmem => ?_, ih⟩
    obtain ⟨⟨q, d⟩, hq, rfl⟩ := List.mem_map.mp hmem
    obtain ⟨b, hb, -⟩ := rest.get_of_mem hq
    rw [hb] at fresh
    cases fresh

/-- Blocks owned beside a memory that is itself a frame and blocks. -/
theorem append (h : Owns R g' l g'') (h0 : Owns R g l' g') : Owns R g (l ++ l') g'' := by
  induction h with
  | nil => exact h0
  | cons _ fresh content ih => exact .cons ih fresh content

end Owns

end BeanRaft.Lib
