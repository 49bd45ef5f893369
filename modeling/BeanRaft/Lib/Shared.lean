import Mathlib.Data.List.Perm.Subperm
import Mathlib.Logic.Function.Basic

/-!
# BeanRaft.Lib.Shared — resources shared by a list and any number of holders

`Shared all l held`: the resources of `all` are in `l` or held, one at most by each holder, and nothing is in two
places or lost.  It is kept when a holder takes a resource (`Shared.take`), gives one back (`Shared.give`) and when
the list is rearranged (`Shared.perm`).
-/

namespace BeanRaft.Lib

variable {ι β : Type} {all l l' : List β} {held : ι → Option β}

/-- The resources of `all` are the members of `l` and what the holders hold, each exactly once. -/
def Shared (all l : List β) (held : ι → Option β) : Prop :=
  ∃ holders : List ι, holders.Nodup ∧ (∀ i, i ∈ holders ↔ (held i).isSome = true) ∧
    (l ++ holders.filterMap held).Perm all

theorem Shared.perm (h : Shared all l held) (hl : l'.Perm l) : Shared all l' held := by
  obtain ⟨holders, hnd, hmem, hp⟩ := h
  exact ⟨holders, hnd, hmem, (hl.append_right _).trans hp⟩

section Update

variable [DecidableEq ι] {i : ι} {b : β}

theorem filterMap_update_of_notMem {holders : List ι} (h : i ∉ holders) (o : Option β) :
    holders.filterMap (Function.update held i o) = holders.filterMap held := by
  refine List.filterMap_congr fun j hj => ?_
  have hne : j ≠ i := by
    rintro rfl
    exact h hj
  exact Function.update_of_ne hne _ _

theorem Shared.take (h : Shared all (b :: l) held) (hi : held i = none) :
    Shared all l (Function.update held i (some b)) := by
  obtain ⟨holders, hnd, hmem, hp⟩ := h
  have hnot : i ∉ holders := by
    intro hin
    have hs := (hmem i).mp hin
    rw [hi] at hs
    cases hs
  refine ⟨i :: holders, List.nodup_cons.mpr ⟨hnot, hnd⟩, fun j => ?_, ?_⟩
  · by_cases hj : j = i
    · subst hj
      simp
    · rw [Function.update_of_ne hj, List.mem_cons, hmem]
      simp [hj]
  · have hcons : (i :: holders).filterMap (Function.update held i (some b)) = b :: holders.filterMap held := by
      rw [List.filterMap_cons, Function.update_self, filterMap_update_of_notMem hnot]
    rw [hcons]
    exact List.perm_middle.trans hp

theorem Shared.give (h : Shared all l held) (hi : held i = some b) :
    Shared all (b :: l) (Function.update held i none) := by
  obtain ⟨holders, hnd, hmem, hp⟩ := h
  have hin : i ∈ holders := by
    rw [hmem, hi]
    rfl
  have hnot : i ∉ holders.erase i := hnd.not_mem_erase
  refine ⟨holders.erase i, hnd.erase i, fun j => ?_, ?_⟩
  · by_cases hj : j = i
    · subst hj
      simp [hnot]
    · rw [Function.update_of_ne hj, List.mem_erase_of_ne hj, hmem]
  · rw [filterMap_update_of_notMem hnot]
    have hperm : (holders.filterMap held).Perm (b :: (holders.erase i).filterMap held) := by
      have := (List.perm_cons_erase hin).filterMap held
      rwa [List.filterMap_cons, hi] at this
    exact List.perm_middle.symm.trans ((hperm.symm.append_left l).trans hp)

end Update

theorem length_filterMap_of_isSome {holders : List ι} (h : ∀ i ∈ holders, (held i).isSome = true) :
    (holders.filterMap held).length = holders.length := by
  induction holders with
  | nil => rfl
  | cons i holders ih =>
    obtain ⟨b, hb⟩ := Option.isSome_iff_exists.mp (h i List.mem_cons_self)
    rw [List.filterMap_cons, hb, List.length_cons, List.length_cons, ih fun j hj => h j (List.mem_cons_of_mem _ hj)]

/-- The holders and the list together have no more than there is. -/
theorem Shared.bound (h : Shared all l held) {L : List ι} (hL : L.Nodup) (hs : ∀ i ∈ L, (held i).isSome = true) :
    L.length + l.length ≤ all.length := by
  obtain ⟨holders, -, hmem, hp⟩ := h
  have hsub : L.length ≤ holders.length := (hL.subperm fun i hi => (hmem i).mpr (hs i hi)).length_le
  have hlen := hp.length_eq
  rw [List.length_append, length_filterMap_of_isSome fun i hi => (hmem i).mp hi] at hlen
  omega

/-- When nobody holds anything, the list has it all. -/
theorem Shared.all_of_none (h : Shared all l held) (hn : ∀ i, held i = none) : l.Perm all := by
  obtain ⟨holders, -, hmem, hp⟩ := h
  have hnil : holders = [] := by
    refine List.eq_nil_iff_forall_not_mem.mpr fun i hi => ?_
    have hs := (hmem i).mp hi
    rw [hn i] at hs
    cases hs
  rw [hnil] at hp
  simpa using hp

end BeanRaft.Lib
