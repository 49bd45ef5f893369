import BeanRaft.Slice.Values

/-!
# BeanRaft.Slice.Equality — comparing Slices

`sdscmp` and `operator==`.  `memcmp_eq_zero`: the comparison of a common prefix.  `equal_data`: two Slices with strings
are equal when their bytes are.  A Slice without a string is equal to none, not even to itself (`equal_null`).
-/

namespace BeanRaft.Slice

open CInt Lib Lts

/-! ## The code -/

/-- `memcmp` on `n` bytes: the sign of the first difference; `none` when a byte is missing or uninitialised. -/
def memcmp : List Byte → List Byte → Nat → Option Int
  | _, _, 0 => some 0
  | some a :: s1, some b :: s2, n + 1 => if a = b then memcmp s1 s2 n else some (a.toNat - b.toNat)
  | _, _, _ + 1 => none

/-- `sdscmp` (sds.cpp line 875) -/
def sdscmp (m : Mem) (s1 s2 : Ptr) : Option Int :=
  (m.heap.get s1).bind fun h1 => (m.heap.get s2).bind fun h2 =>
    let minlen := if h1.len < h2.len then h1.len else h2.len
    (memcmp h1.buf h2.buf minlen).map fun cmp =>
      if cmp = 0 then (if h2.len < h1.len then 1 else if h1.len < h2.len then -1 else 0) else cmp

/-- `operator==` -/
def World.equal (w : World) (a b : Nat) : Option Bool :=
  match w.data a, w.data b with
  | some p, some q => (sdscmp w.mem p q).map fun cmp => cmp = 0
  | _, _ => some false

/-! ## Its result -/

/-- The result says whether the sizes and the bytes are the same. -/
def Agrees (w : World) (a b : Nat) : Prop :=
  ∃ r, w.equal a b = some r ∧ (r = true ↔ w.size a = w.size b ∧ w.held a = w.held b)

section Memcmp

variable {as bs : List UInt8} {s t : List Byte} {n : Nat}

theorem memcmp_eq_zero (hn : n ≤ as.length) (hm : n ≤ bs.length) :
    ∃ cmp, memcmp (as.map some ++ s) (bs.map some ++ t) n = some cmp ∧ (cmp = 0 ↔ as.take n = bs.take n) := by
  induction n generalizing as bs with
  | zero => exact ⟨0, by unfold memcmp; rfl, by simp⟩
  | succ n ih =>
    obtain ⟨a, as, rfl⟩ := List.exists_cons_of_length_pos (l := as) (by omega)
    obtain ⟨b, bs, rfl⟩ := List.exists_cons_of_length_pos (l := bs) (by omega)
    show ∃ cmp, (if a = b then memcmp (as.map some ++ s) (bs.map some ++ t) n else some ((a.toNat : Int) - b.toNat)) =
      some cmp ∧ _
    by_cases hab : a = b
    · have hn' : n ≤ as.length := Nat.le_of_succ_le_succ hn
      have hm' : n ≤ bs.length := Nat.le_of_succ_le_succ hm
      obtain ⟨cmp, hcmp, hiff⟩ := ih hn' hm'
      refine ⟨cmp, by rw [if_pos hab]; exact hcmp, ?_⟩
      rw [hiff, hab, List.take_succ_cons, List.take_succ_cons, List.cons_inj_right]
    · refine ⟨_, if_neg hab, ?_⟩
      have hne : a.toNat ≠ b.toNat := fun h => hab (UInt8.toNat_inj.mp h)
      rw [List.take_succ_cons, List.take_succ_cons]
      constructor
      · intro h0
        omega
      · intro hcons
        exact absurd (List.cons.inj hcons).1 hab

end Memcmp

section Equal

variable {w : World} {a b c : Nat} {as bs cs : List UInt8} {p q : Ptr} {h : Sdshdr}

/-- The string of an object that holds `as`. -/
theorem string_of_held (hw : Wf w) (ha : w.held a = as.map some) (hd : w.data a = some p) :
    ∃ h l, w.mem.heap.get p = some h ∧ h.len = as.length ∧ h.buf = as.map some ++ l := by
  obtain ⟨h, hh, -, -⟩ := hw.live a p hd
  have hstr : w.string a = some h := by rw [string_of_data hd, hh]
  have hlen := size_held hw a
  rw [size_of_string hstr, ha, List.length_map] at hlen
  refine ⟨h, h.buf.drop h.len, hh, hlen, ?_⟩
  rw [← ha, held_of_string hstr, List.take_append_drop]

/-- Two strings are compared as their bytes are. -/
theorem equal_data (hw : Wf w) (ha : w.held a = as.map some) (hb : w.held b = bs.map some) (hpa : w.data a ≠ none)
    (hpb : w.data b ≠ none) : w.equal a b = some (decide (as = bs)) := by
  obtain ⟨p, hp⟩ := Option.ne_none_iff_exists'.mp hpa
  obtain ⟨q, hq⟩ := Option.ne_none_iff_exists'.mp hpb
  obtain ⟨h1, l1, hg1, hlen1, hbuf1⟩ := string_of_held hw ha hp
  obtain ⟨h2, l2, hg2, hlen2, hbuf2⟩ := string_of_held hw hb hq
  have hmin1 : (if as.length < bs.length then as.length else bs.length) ≤ as.length := by split_ifs <;> omega
  have hmin2 : (if as.length < bs.length then as.length else bs.length) ≤ bs.length := by split_ifs <;> omega
  obtain ⟨cmp, hcmp, hzero⟩ := memcmp_eq_zero (s := l1) (t := l2) hmin1 hmin2
  unfold World.equal sdscmp
  rw [hp, hq]
  dsimp only
  rw [hg1, Option.bind_some, hg2, Option.bind_some, hlen1, hlen2, hbuf1, hbuf2, hcmp, Option.map_some, Option.map_some,
    Option.some.injEq, decide_eq_decide]
  rcases Nat.lt_trichotomy as.length bs.length with hlt | heq | hgt
  · -- the prefix is the shorter string
    have hne : as ≠ bs := fun h => absurd (congrArg List.length h) (Nat.ne_of_lt hlt)
    rw [if_neg (Nat.not_lt_of_lt hlt), if_pos hlt]
    split_ifs with h0
    · exact ⟨fun h => absurd h (by decide), fun h => absurd h hne⟩
    · exact ⟨fun h => absurd h h0, fun h => absurd h hne⟩
  · rw [heq, if_neg (Nat.lt_irrefl _), if_neg (Nat.lt_irrefl _)]
    rw [heq, if_neg (Nat.lt_irrefl _), ← heq, List.take_length, heq, List.take_length] at hzero
    rw [← hzero]
    split_ifs with h0
    · exact ⟨fun _ => h0, fun _ => rfl⟩
    · exact Iff.rfl
  · have hne : as ≠ bs := fun h => absurd (congrArg List.length h) (Nat.ne_of_gt hgt)
    rw [if_pos hgt]
    split_ifs with h0
    · exact ⟨fun h => absurd h (by decide), fun h => absurd h hne⟩
    · exact ⟨fun h => absurd h h0, fun h => absurd h hne⟩

/-- A Slice without a string is on one side. -/
theorem equal_null (h : w.data a = none ∨ w.data b = none) : w.equal a b = some false := by
  unfold World.equal
  rcases h with h | h
  · rw [h]
  · rw [h]
    cases w.data a <;> rfl

theorem equal_eq (hw : Wf w) (ha : w.held a = as.map some) (hb : w.held b = bs.map some) :
    w.equal a b = some (decide (w.data a ≠ none ∧ w.data b ≠ none ∧ as = bs)) := by
  by_cases h : w.data a = none ∨ w.data b = none
  · rw [equal_null h, Option.some.injEq, eq_comm, decide_eq_false_iff_not]
    rintro ⟨hpa, hpb, -⟩
    exact h.elim hpa hpb
  · obtain ⟨hpa, hpb⟩ := not_or.mp h
    rw [equal_data hw ha hb hpa hpb, Option.some.injEq, decide_eq_decide]
    exact ⟨fun he => ⟨hpa, hpb, he⟩, fun he => he.2.2⟩

theorem agrees_iff_nonnull (hw : Wf w) (ha : w.held a = as.map some) (hb : w.held b = bs.map some) :
    Agrees w a b ↔ (w.data a = none ∨ w.data b = none → w.size a ≠ w.size b) := by
  have hsize : w.size a = w.size b ∧ w.held a = w.held b ↔ as = bs := by
    rw [ha, hb, size_held hw, size_held hw, ha, hb]
    refine ⟨fun h => List.map_injective_iff.mpr (Option.some_injective _) h.2, ?_⟩
    rintro rfl
    exact ⟨rfl, rfl⟩
  have hempty : ∀ {x : Nat}, w.data x = none → w.size x = 0 := by
    intro x hx
    rw [size_held hw, held_of_none hx]
    rfl
  unfold Agrees
  rw [equal_eq hw ha hb, hsize]
  constructor
  · rintro ⟨r, hr, hiff⟩ hnull hsz
    obtain rfl := Option.some.inj hr
    rw [decide_eq_true_iff] at hiff
    -- both are empty
    have hlen : as.length = bs.length := by
      have h1 := size_held hw a
      have h2 := size_held hw b
      rw [ha, List.length_map] at h1
      rw [hb, List.length_map] at h2
      omega
    have has : as = bs := by
      have hzero : as.length = 0 ∨ bs.length = 0 := by
        have h1 := size_held hw a
        have h2 := size_held hw b
        rw [ha, List.length_map] at h1
        rw [hb, List.length_map] at h2
        rcases hnull with hn | hn
        · have := hempty hn
          omega
        · have := hempty hn
          omega
      rw [List.length_eq_zero_iff.mp (show as.length = 0 by omega),
        List.length_eq_zero_iff.mp (show bs.length = 0 by omega)]
    obtain ⟨hpa, hpb, -⟩ := hiff.mpr has
    exact hnull.elim hpa hpb
  · intro hne
    refine ⟨_, rfl, ?_⟩
    rw [decide_eq_true_iff]
    refine ⟨fun h => h.2.2, fun has => ⟨fun hn => ?_, fun hn => ?_, has⟩⟩
    · exact hne (.inl hn) (hsize.mpr has).1
    · exact hne (.inr hn) (hsize.mpr has).1

/-- **Equality is content equality** of two Slices if and only if both have strings or their sizes differ.  It is
reflexive where there is a string, and symmetric and transitive. -/
theorem equality (hw : w.Reached) (ha : w.held a = as.map some) (hb : w.held b = bs.map some)
    (hc : w.held c = cs.map some) :
    (Agrees w a b ↔ (w.data a = none ∨ w.data b = none → w.size a ≠ w.size b)) ∧
    (w.equal a a = some true ↔ w.data a ≠ none) ∧ w.equal a b = w.equal b a ∧
    (w.equal a b = some true → w.equal b c = some true → w.equal a c = some true) := by
  refine ⟨agrees_iff_nonnull hw.wf ha hb, ?_, ?_, ?_⟩
  · rw [equal_eq hw.wf ha ha, Option.some.injEq, decide_eq_true_iff]
    exact ⟨fun h => h.1, fun h => ⟨h, h, rfl⟩⟩
  · rw [equal_eq hw.wf ha hb, equal_eq hw.wf hb ha, Option.some.injEq, decide_eq_decide]
    exact ⟨fun h => ⟨h.2.1, h.1, h.2.2.symm⟩, fun h => ⟨h.2.1, h.1, h.2.2.symm⟩⟩
  · rw [equal_eq hw.wf ha hb, equal_eq hw.wf hb hc, equal_eq hw.wf ha hc]
    simp only [Option.some.injEq, decide_eq_true_iff]
    rintro ⟨h1, -, rfl⟩ ⟨-, h3, rfl⟩
    exact ⟨h1, h3, rfl⟩

/-- A string and a Slice that has none: the place after the last object counts as one. -/
theorem equality_ab : (Agrees World.ab 0 1 ↔ (World.ab.data 0 = none ∨ World.ab.data 1 = none →
      World.ab.size 0 ≠ World.ab.size 1)) ∧
    (World.ab.equal 0 0 = some true ↔ World.ab.data 0 ≠ none) ∧ World.ab.equal 0 1 = World.ab.equal 1 0 ∧
    (World.ab.equal 0 1 = some true → World.ab.equal 1 0 = some true → World.ab.equal 0 0 = some true) :=
  equality World.reached_ab (show World.ab.held 0 = ([97, 98] : List UInt8).map some from rfl)
    (show World.ab.held 1 = ([] : List UInt8).map some from rfl)
    (show World.ab.held 0 = ([97, 98] : List UInt8).map some from rfl)

/-- A default-constructed Slice is not equal to itself. -/
theorem null_not_agrees : ¬ Agrees ⟨⟨⟨[]⟩, []⟩, [none]⟩ 0 0 := by
  rintro ⟨r, hr, hiff⟩
  obtain rfl := Option.some.inj hr
  exact absurd (hiff.mpr ⟨rfl, rfl⟩) (by decide)

end Equal

end BeanRaft.Slice
