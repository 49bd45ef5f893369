import BeanRaft.Slice.Stores

/-!
# BeanRaft.Slice.Numerals — both integer formatters write the decimal numeral

`ll2string` fills the text from the right, `sdsll2str` puts the digits down in reverse order and turns them around.
`sdsll2str_eq`, `sdsull2str_eq`: the text is the numeral all the same.  `formatters_agree`: the two write the same bytes,
which are a canonical numeral of the value.
-/

namespace BeanRaft.Slice

open CInt Lib

section Digits

variable {A B M : List Byte} {v : Nat}

/-- The digits of `v` fill the place `M` in reverse order. -/
theorem putDigits_eq (A B : List Byte) : ∀ (v : Nat) (M : List Byte), M.length = (numeral v).length →
    putDigits (A ++ M ++ B) A.length v = some (A ++ ((numeral v).reverse.map some) ++ B, A.length + M.length) := by
  intro v
  induction v using Nat.strong_induction_on generalizing A with
  | _ v ih =>
    intro M hM
    obtain ⟨x, M', rfl⟩ := List.exists_cons_of_length_pos (l := M) (by rw [hM]; exact numeral_length_pos)
    have hstore : write (A ++ x :: M' ++ B) A.length [some (digit (v % 10))] =
        some (A ++ some (digit (v % 10)) :: (M' ++ B)) := by
      rw [List.append_assoc, List.cons_append]
      exact write_middle A (M' ++ B) x _ rfl
    unfold putDigits
    rw [hstore, Option.bind_some]
    by_cases hv : v < 10
    · -- the last digit
      rw [numeral_of_lt hv] at hM ⊢
      obtain rfl : M' = [] := List.length_eq_zero_iff.mp (by simpa using hM)
      rw [if_pos (Nat.div_eq_of_lt hv), Nat.mod_eq_of_lt hv]
      simp
    · rw [numeral_step (by omega)] at hM ⊢
      have hq : v / 10 ≠ 0 := by omega
      have hM' : M'.length = (numeral (v / 10)).length := by simpa using hM
      have hrec := ih (v / 10) (by omega) (A ++ [some (digit (v % 10))]) M' hM'
      rw [List.length_append, List.length_singleton] at hrec
      rw [if_neg hq, show A ++ some (digit (v % 10)) :: (M' ++ B) = A ++ [some (digit (v % 10))] ++ M' ++ B by simp, hrec,
        List.reverse_append, List.length_cons]
      simp [Nat.add_assoc, Nat.add_comm 1]

/-- The part `M` of a buffer is turned around. -/
theorem reverseRange_eq (A B M : List Byte) :
    reverseRange (A ++ M ++ B) A.length (A.length + M.length - 1) = some (A ++ M.reverse ++ B) := by
  induction hn : M.length using Nat.strong_induction_on generalizing A B M with
  | _ n ih =>
    unfold reverseRange
    by_cases h2 : M.length < 2
    · -- there is nothing to turn around
      rw [if_neg (by omega)]
      have hrev : M.reverse = M := by
        match M, h2 with
        | [], _ => rfl
        | [x], _ => rfl
      rw [hrev]
    · obtain ⟨x, L, rfl⟩ := List.exists_cons_of_length_pos (l := M) (by omega)
      obtain ⟨N, y, rfl⟩ : ∃ N y, L = N ++ [y] := by
        refine ⟨L.dropLast, L.getLast (List.ne_nil_of_length_pos ?_), (List.dropLast_append_getLast _).symm⟩
        simp only [List.length_cons] at h2
        omega
      simp only [List.length_cons, List.length_append, List.length_nil] at hn
      have hp : A.length + n - 1 = (A ++ x :: N).length := by
        simp only [List.length_append, List.length_cons]
        omega
      have hlast : A ++ x :: (N ++ [y]) ++ B = (A ++ x :: N) ++ y :: B := by simp
      have hget : (A ++ x :: (N ++ [y]) ++ B)[A.length + n - 1]? = some y := by
        rw [hp, hlast, List.getElem?_append_right (Nat.le_refl _), Nat.sub_self]
        rfl
      have hfirst : (A ++ x :: (N ++ [y]) ++ B)[A.length]? = some x := by
        rw [List.append_assoc, List.getElem?_append_right (Nat.le_refl _), Nat.sub_self]
        rfl
      have hw1 : write (A ++ x :: (N ++ [y]) ++ B) A.length [y] = some (A ++ y :: (N ++ [y] ++ B)) := by
        rw [List.append_assoc]
        exact write_middle A (N ++ [y] ++ B) x y rfl
      have hw2 : write (A ++ y :: (N ++ [y] ++ B)) (A.length + n - 1) [x] = some (A ++ [y] ++ N ++ ([x] ++ B)) := by
        have := write_middle (A ++ y :: N) B y x (k := A.length + n - 1) (by
          simp only [List.length_append, List.length_cons]
          omega)
        simpa using this
      have hrec := ih N.length (by omega) (A ++ [y]) ([x] ++ B) N rfl
      rw [List.length_append, List.length_singleton] at hrec
      rw [if_pos (by omega), hget, Option.bind_some, hfirst, Option.bind_some, hw1, Option.bind_some, hw2,
        Option.bind_some, show A.length + n - 1 - 1 = A.length + 1 + N.length - 1 by omega, hrec]
      simp

theorem finishDigits_eq (M B : List Byte) (x : Byte) :
    finishDigits (M ++ x :: B) M.length = some (M.reverse ++ some 0 :: B, M.length) := by
  have hrev := reverseRange_eq [] (some 0 :: B) M
  simp only [List.nil_append, List.length_nil, Nat.zero_add] at hrev
  unfold finishDigits
  rw [write_middle M B x (some 0) rfl, Option.bind_some, hrev]
  rfl

end Digits

/-! ## sds.cpp -/

section Sds

variable {s : List Byte}

/-- A buffer with room for a text of `n` bytes and a null term. -/
theorem exists_room {n : Nat} (h : n < s.length) : ∃ M x, M.length = n ∧ s = M ++ x :: s.drop (n + 1) := by
  refine ⟨s.take n, s[n], ?_, ?_⟩
  · rw [List.length_take]
    omega
  · rw [List.getElem_cons_drop, List.take_append_drop]

/-- **`sdsull2str` writes the numeral** and its null term, and returns the length. -/
theorem sdsull2str_eq {v : UInt64} (h : (numeral v.toNat).length < s.length) : sdsull2str s v =
    some ((numeral v.toNat).map some ++ some 0 :: s.drop ((numeral v.toNat).length + 1), (numeral v.toNat).length) := by
  obtain ⟨M, x, hM, hs⟩ := exists_room h
  have hput := putDigits_eq [] (x :: s.drop ((numeral v.toNat).length + 1)) v.toNat M hM
  simp only [List.nil_append, List.length_nil, Nat.zero_add, ← hs] at hput
  have hrev : ((numeral v.toNat).reverse.map some : List Byte).length = M.length := by
    rw [List.length_map, List.length_reverse, hM]
  unfold sdsull2str
  rw [hput, Option.bind_some]
  dsimp only
  rw [← hrev, finishDigits_eq, List.map_reverse, List.reverse_reverse, List.length_reverse, List.length_map]

/-- The unsigned value that the digits are taken of. -/
theorem magnitude_eq {v : Int} (h1 : -2 ^ 63 ≤ v) (h2 : v < 2 ^ 63) : uint64 (if v < 0 then -v else v) = v.natAbs := by
  split_ifs with hneg
  · rw [uint64_of_range (by omega) (by omega)]
    omega
  · rw [uint64_of_range (by omega) (by omega)]
    omega

/-- **`sdsll2str` writes the decimal numeral** and its null term, and returns the length. -/
theorem sdsll2str_eq {value : Int64} (h : (decimal value.toInt).length < s.length) : sdsll2str s value =
    some ((decimal value.toInt).map some ++ some 0 :: s.drop ((decimal value.toInt).length + 1),
      (decimal value.toInt).length) := by
  simp only [sdsll2str, magnitude_eq value.le_toInt value.toInt_lt]
  revert h
  generalize value.toInt = v
  intro h
  by_cases hneg : v < 0
  · -- the sign comes last, before the text is turned around
    have hdec : decimal v = 45 :: numeral v.natAbs := if_pos hneg
    rw [hdec] at h ⊢
    obtain ⟨M, x, hM, hs⟩ := exists_room h
    obtain ⟨N, z, rfl⟩ : ∃ N z, M = N ++ [z] := by
      refine ⟨M.dropLast, M.getLast (List.ne_nil_of_length_pos ?_), (List.dropLast_append_getLast _).symm⟩
      rw [hM]
      exact Nat.succ_pos _
    have hN : N.length = (numeral v.natAbs).length := by simpa using hM
    have hput := putDigits_eq [] (z :: x :: s.drop ((45 :: numeral v.natAbs).length + 1)) v.natAbs N hN
    rw [List.append_assoc, List.singleton_append] at hs
    simp only [List.nil_append, List.length_nil, Nat.zero_add, ← hs] at hput
    have hrev : ((numeral v.natAbs).reverse.map some : List Byte).length = N.length := by
      rw [List.length_map, List.length_reverse, hN]
    have hfin := finishDigits_eq ((numeral v.natAbs).reverse.map some ++ [some 45])
      (s.drop ((45 :: numeral v.natAbs).length + 1)) x
    rw [List.append_assoc, List.singleton_append, List.length_append, List.length_singleton] at hfin
    rw [hput, Option.bind_some]
    dsimp only
    rw [if_pos hneg, ← hrev, write_middle _ _ z (some 45) rfl, Option.bind_some, hfin]
    simp
  · have hdec : decimal v = numeral v.natAbs := if_neg hneg
    rw [hdec] at h ⊢
    obtain ⟨M, x, hM, hs⟩ := exists_room h
    have hput := putDigits_eq [] (x :: s.drop ((numeral v.natAbs).length + 1)) v.natAbs M hM
    simp only [List.nil_append, List.length_nil, Nat.zero_add, ← hs] at hput
    have hrev : ((numeral v.natAbs).reverse.map some : List Byte).length = M.length := by
      rw [List.length_map, List.length_reverse, hM]
    rw [hput, Option.bind_some]
    dsimp only
    rw [if_neg hneg, ← hrev, finishDigits_eq, List.map_reverse, List.reverse_reverse, List.length_reverse,
      List.length_map]

end Sds

/-- **The formatters agree** on every value: the buffers begin with the same text and its null term, which is all that is
written, and the length of the text is returned.  The text is a canonical numeral that reads back as the value. -/
theorem formatters_agree (v : Int64) {buffer buf : List Byte} (h64 : buffer.length = 64)
    (h21 : buf.length = SDS_LLSTR_SIZE) : ∃ text : List UInt8, Canonical text ∧ ofDecimal text = some v.toInt ∧
      text.length < SDS_LLSTR_SIZE ∧
      ll2string buffer 64 v = some (text.map some ++ some 0 :: buffer.drop (text.length + 1), text.length) ∧
      sdsll2str buf v = some (text.map some ++ some 0 :: buf.drop (text.length + 1), text.length) := by
  have h20 := decimal_int64_length v
  have hlt : (decimal v.toInt).length < SDS_LLSTR_SIZE := by
    unfold SDS_LLSTR_SIZE
    omega
  refine ⟨decimal v.toInt, canonical_decimal _, ofDecimal_decimal _, hlt, ?_, sdsll2str_eq (by rw [h21]; exact hlt)⟩
  have hroom : (decimal v.toInt).length < buffer.length := by omega
  have hll := ll2string_eq hroom
  rwa [h64] at hll

/-- The smallest value, whose negation is not a `long long`. -/
theorem formatters_agree_min : ∃ text : List UInt8, Canonical text ∧ ofDecimal text = some (-2 ^ 63) ∧
    text.length < SDS_LLSTR_SIZE ∧
    ll2string (List.replicate 64 none) 64 (-9223372036854775808) =
      some (text.map some ++ some 0 :: (List.replicate 64 none).drop (text.length + 1), text.length) ∧
    sdsll2str (List.replicate SDS_LLSTR_SIZE none) (-9223372036854775808) =
      some (text.map some ++ some 0 :: (List.replicate SDS_LLSTR_SIZE none).drop (text.length + 1), text.length) :=
  formatters_agree (-9223372036854775808) (by rw [List.length_replicate]) (by rw [List.length_replicate])

end BeanRaft.Slice
