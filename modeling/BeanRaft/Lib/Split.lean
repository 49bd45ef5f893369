import Mathlib.Data.List.Infix
import Mathlib.Data.List.Basic

/-!
# BeanRaft.Lib.Split — splitting a list at a separator of any length

* `Pieces sep l ps`: cutting `l` at its separators, from the first one on and without overlaps, leaves `ps`.  The
  pieces are unique (`Pieces.unique`), and joining them gives `l` back (`pieces_iff`).
* `Clean sep ps`: the lists whose joined form is cut into them again.  `pieces_lines`: what is cut at the ends of lines.
* `splitLast`: cutting at the last occurrence of an element.
* `Scanned`: the invariant of a scan for separators from left to right, with a rule for each step of it.
-/

namespace BeanRaft.Lib

variable {α : Type} {sep l l' p q : List α} {ps qs : List (List α)} {start j : Nat}

/-- The first separator in `p ++ sep` is the one at its end. -/
def First (sep p : List α) : Prop := ∀ i < p.length, ¬ sep <+: (p ++ sep).drop i

inductive Pieces (sep : List α) : List α → List (List α) → Prop
  | last {p : List α} (h : ¬ sep <:+: p) : Pieces sep p [p]
  | cons {p l : List α} {ps : List (List α)} (h : First sep p) (rest : Pieces sep l ps) :
      Pieces sep (p ++ (sep ++ l)) (p :: ps)

/-- What follows the separator does not bring up an earlier one. -/
theorem First.append (h : First sep p) (l : List α) : ∀ i < p.length, ¬ sep <+: (p ++ (sep ++ l)).drop i := by
  intro i hi hpre
  refine h i hi ?_
  rw [← List.append_assoc, List.drop_append_of_le_length (by rw [List.length_append]; omega)] at hpre
  refine List.prefix_of_prefix_length_le hpre (List.prefix_append _ _) ?_
  rw [List.length_drop, List.length_append]
  omega

theorem Pieces.unique (h : Pieces sep l ps) (h' : Pieces sep l qs) : ps = qs := by
  induction h generalizing qs with
  | @last p hp =>
    generalize hl : p = l at h'
    cases h' with
    | last => rfl
    | @cons q l ps hq rest => exact absurd ⟨q, l, by rw [hl, List.append_assoc]⟩ hp
  | @cons p l ps hp rest ih =>
    generalize hl : p ++ (sep ++ l) = whole at h'
    cases h' with
    | last hno => exact absurd ⟨p, l, by rw [← hl, List.append_assoc]⟩ hno
    | @cons q l' qs hq rest' =>
      -- the first separator is at one place
      have hlen : p.length = q.length := by
        rcases Nat.lt_trichotomy p.length q.length with hlt | heq | hgt
        · refine absurd ?_ (hq.append l' p.length hlt)
          rw [← hl, List.drop_left]
          exact List.prefix_append _ _
        · exact heq
        · refine absurd ?_ (hp.append l q.length hgt)
          rw [hl, List.drop_left]
          exact List.prefix_append _ _
      obtain ⟨rfl, htail⟩ := List.append_inj hl hlen
      obtain rfl := List.append_cancel_left htail
      rw [ih rest']

/-! ## Joining -/

/-- The lists whose joined form is cut into them again. -/
inductive Clean (sep : List α) : List (List α) → Prop
  | last {p : List α} (h : ¬ sep <:+: p) : Clean sep [p]
  | cons {p q : List α} {ps : List (List α)} (h : First sep p) (rest : Clean sep (q :: ps)) : Clean sep (p :: q :: ps)

/-- **Cutting undoes joining** exactly for clean lists, and joining always undoes cutting. -/
theorem pieces_iff : Pieces sep l ps ↔ Clean sep ps ∧ sep.intercalate ps = l := by
  constructor
  · intro h
    induction h with
    | last hp => exact ⟨.last hp, List.intercalate_singleton⟩
    | @cons p l ps hp rest ih =>
      obtain ⟨hclean, rfl⟩ := ih
      cases ps with
      | nil => cases hclean
      | cons q ps => exact ⟨.cons hp hclean, by rw [List.intercalate_cons_cons, List.append_assoc]⟩
  · rintro ⟨hclean, rfl⟩
    induction hclean with
    | last hp =>
      rw [List.intercalate_singleton]
      exact .last hp
    | cons hp _ ih =>
      rw [List.intercalate_cons_cons, List.append_assoc]
      exact .cons hp ih

/-- Before a separator of one element. -/
theorem first_singleton {c : α} (h : c ∉ p) : First [c] p := by
  intro i hi hpre
  have hlt : i < (p ++ [c]).length := by
    rw [List.length_append]
    omega
  rw [List.drop_eq_getElem_cons hlt, List.getElem_append_left hi] at hpre
  obtain ⟨rest, hrest⟩ := hpre
  rw [(List.cons.inj hrest).1] at h
  exact h (List.getElem_mem hi)

/-- Lines, each with its end, and a part of another one. -/
theorem pieces_lines {c : α} {ls : List (List α)} (hls : ∀ l ∈ ls, c ∉ l) (hp : c ∉ p) :
    Pieces [c] (ls.flatMap (· ++ [c]) ++ p) (ls ++ [p]) := by
  induction ls with
  | nil => exact .last fun h => hp ((List.singleton_infix_iff c p).mp h)
  | cons l ls ih =>
    rw [List.flatMap_cons, List.append_assoc, List.append_assoc, List.cons_append]
    exact .cons (first_singleton (hls l List.mem_cons_self)) (ih fun m hm => hls m (List.mem_cons_of_mem l hm))

/-! ## Scanning -/

/-- A scan from left to right has cut off `ps`, and found no separator that starts in `p`; `rest` is still to come. -/
structure Scanned (sep l : List α) (ps : List (List α)) (p rest : List α) : Prop where
  whole : l = ps.flatMap (· ++ sep) ++ (p ++ rest)
  first : ∀ q ∈ ps, First sep q
  none : ∀ i < p.length, ¬ sep <+: (p ++ rest).drop i

namespace Scanned

variable {rest : List α} {c : α}

theorem init : Scanned sep l [] [] l :=
  ⟨rfl, fun _ h => absurd h List.not_mem_nil, fun i hi => absurd hi (Nat.not_lt_zero i)⟩

/-- No separator starts here. -/
theorem skip (h : Scanned sep l ps p (c :: rest)) (hno : ¬ sep <+: c :: rest) : Scanned sep l ps (p ++ [c]) rest := by
  refine ⟨by rw [h.whole, List.append_assoc, List.singleton_append], h.first, fun i hi hpre => ?_⟩
  rw [List.append_assoc, List.singleton_append] at hpre
  rw [List.length_append, List.length_singleton] at hi
  rcases Nat.lt_succ_iff_lt_or_eq.mp hi with hlt | rfl
  · exact h.none i hlt hpre
  · rw [List.drop_left] at hpre
    exact hno hpre

/-- A separator ends a piece. -/
theorem hit (h : Scanned sep l ps p (sep ++ rest)) : Scanned sep l (ps ++ [p]) [] rest := by
  refine ⟨?_, fun q hq => ?_, fun i hi => absurd hi (Nat.not_lt_zero i)⟩
  · rw [h.whole, List.flatMap_append, List.flatMap_singleton, List.append_assoc, List.append_assoc, List.nil_append]
  · rcases List.mem_append.mp hq with hq | hq
    · exact h.first q hq
    · rw [List.mem_singleton.mp hq]
      intro i hi hpre
      refine h.none i hi ?_
      rw [← List.append_assoc, List.drop_append_of_le_length (by rw [List.length_append]; omega)]
      exact hpre.trans (List.prefix_append _ _)

/-- What is left is too short for another separator. -/
theorem finish (h : Scanned sep l ps p rest) (hshort : rest.length < sep.length) : Pieces sep l (ps ++ [p ++ rest]) := by
  have hlast : Pieces sep (p ++ rest) [p ++ rest] := by
    refine .last ?_
    rintro ⟨a, b, hab⟩
    have hlen := congrArg List.length hab
    rw [List.length_append, List.length_append, List.length_append] at hlen
    refine h.none a.length (by omega) ?_
    rw [← hab, List.append_assoc, List.drop_left]
    exact List.prefix_append _ _
  obtain ⟨hwhole, hfirst, -⟩ := h
  rw [hwhole]
  clear hwhole
  induction ps with
  | nil => exact hlast
  | cons q ps ih =>
    rw [List.flatMap_cons, List.append_assoc, List.append_assoc, List.cons_append]
    exact .cons (hfirst q List.mem_cons_self) (ih fun r hr => hfirst r (List.mem_cons_of_mem _ hr))

end Scanned

/-! ## The last occurrence -/

section Last

variable [DecidableEq α] {c : α} {l a b : List α}

/-- What is in front of the last `c`, and what follows it. -/
def splitLast (c : α) : List α → Option (List α × List α)
  | [] => none
  | x :: l =>
    match splitLast c l with
    | some (a, b) => some (x :: a, b)
    | none => if x = c then some ([], l) else none

theorem splitLast_none : splitLast c l = none ↔ c ∉ l := by
  induction l with
  | nil => simp [splitLast]
  | cons x l ih =>
    unfold splitLast
    cases h : splitLast c l with
    | some p =>
      have hmem : c ∈ l := by
        by_contra hno
        rw [ih.mpr hno] at h
        exact absurd h (by simp)
      simp [hmem]
    | none =>
      have hmem := ih.mp h
      by_cases hx : x = c
      · simp [hx]
      · simp [hx, hmem, Ne.symm hx]

theorem splitLast_iff : splitLast c l = some (a, b) ↔ l = a ++ c :: b ∧ c ∉ b := by
  induction l generalizing a b with
  | nil => simp [splitLast]
  | cons x l ih =>
    unfold splitLast
    cases h : splitLast c l with
    | some p =>
      obtain ⟨a1, b1⟩ := p
      obtain ⟨hl, hb1⟩ := ih.mp h
      constructor
      · intro heq
        obtain ⟨rfl, rfl⟩ := Prod.mk.inj (Option.some.inj heq)
        exact ⟨by rw [hl]; rfl, hb1⟩
      · rintro ⟨heq, hb⟩
        cases a with
        | nil =>
          rw [List.nil_append] at heq
          obtain ⟨-, rfl⟩ := List.cons.inj heq
          exact absurd (by rw [hl]; simp) hb
        | cons y a =>
          obtain ⟨rfl, hl'⟩ := List.cons.inj heq
          have hab := ih.mpr ⟨hl', hb⟩
          rw [h] at hab
          obtain ⟨rfl, rfl⟩ := Prod.mk.inj (Option.some.inj hab)
          rfl
    | none =>
      have hmem := splitLast_none.mp h
      constructor
      · intro heq
        dsimp only at heq
        split_ifs at heq with hx
        obtain ⟨rfl, rfl⟩ := Prod.mk.inj (Option.some.inj heq)
        exact ⟨by rw [hx]; rfl, hmem⟩
      · rintro ⟨heq, hb⟩
        cases a with
        | nil =>
          obtain ⟨rfl, rfl⟩ := List.cons.inj heq
          simp
        | cons y a =>
          obtain ⟨-, hl'⟩ := List.cons.inj heq
          exact absurd (by rw [hl']; simp) hmem

end Last

end BeanRaft.Lib
