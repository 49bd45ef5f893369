import Mathlib.Data.Nat.Digits.Lemmas

/-!
# BeanRaft.Lib.Decimal — decimal numerals as ASCII text

`numeral` and `decimal` are the canonical decimal texts of a natural number and of an integer, from Mathlib's digits
in base 10.  `numeral_step` and `numeral_two_step` split off one and two digits on the right;
`numeral_length` bounds the number by the length of its text.  `zeroPad` is a numeral of a fixed width.
`ofNumeral` and `ofDecimal` read a text back; `canonical_decimal`: a decimal text has no leading zeros.
-/

namespace BeanRaft.Lib

def digit (d : Nat) : UInt8 := UInt8.ofNat (48 + d)

/-- The decimal text of a natural number. -/
def numeral (n : Nat) : List UInt8 := if n = 0 then [digit 0] else (Nat.digits 10 n).reverse.map digit

/-- The decimal text of an integer, with `-` in front of a negative one. -/
def decimal (v : Int) : List UInt8 := if v < 0 then 45 :: numeral v.natAbs else numeral v.natAbs

variable {n k : Nat}

theorem numeral_of_lt (h : n < 10) : numeral n = [digit n] := by
  unfold numeral
  by_cases h0 : n = 0
  · subst h0
    rfl
  · rw [if_neg h0, Nat.digits_of_lt 10 n h0 h]
    rfl

theorem numeral_step (h : 10 ≤ n) : numeral n = numeral (n / 10) ++ [digit (n % 10)] := by
  have hn : n ≠ 0 := by omega
  have hq : n / 10 ≠ 0 := by omega
  unfold numeral
  rw [if_neg hn, if_neg hq, Nat.digits_def' (by decide) (Nat.pos_of_ne_zero hn)]
  simp

theorem numeral_two_step (h : 100 ≤ n) :
    numeral n = numeral (n / 100) ++ [digit (n % 100 / 10), digit (n % 100 % 10)] := by
  have hq : n / 10 / 10 = n / 100 := Nat.div_div_eq_div_mul n 10 10
  have h1 : n / 10 % 10 = n % 100 / 10 := by omega
  have h2 : n % 10 = n % 100 % 10 := by omega
  rw [numeral_step (by omega), numeral_step (show 10 ≤ n / 10 by omega), hq, h1, h2, List.append_assoc]
  rfl

theorem numeral_of_lt_hundred (h1 : 10 ≤ n) (h2 : n < 100) : numeral n = [digit (n / 10), digit (n % 10)] := by
  rw [numeral_step h1, numeral_of_lt (by omega)]
  rfl

theorem lt_numeral_length (hk : 0 < k) : k < (numeral n).length ↔ 10 ^ k ≤ n := by
  unfold numeral
  by_cases h0 : n = 0
  · subst h0
    have hpow : 0 < 10 ^ k := Nat.pow_pos (by decide)
    have hlen : ((if (0 : Nat) = 0 then [digit 0] else (Nat.digits 10 0).reverse.map digit) : List UInt8).length = 1 := rfl
    omega
  · rw [if_neg h0, List.length_map, List.length_reverse]
    exact Nat.lt_digits_length_iff (by decide) n

theorem numeral_length_pos : 0 < (numeral n).length := by
  by_cases h : n < 10
  · rw [numeral_of_lt h]
    exact Nat.one_pos
  · rw [numeral_step (by omega), List.length_append]
    exact Nat.succ_pos _

/-- A number of `k + 1` digits. -/
theorem numeral_length (h1 : 10 ^ k ≤ n) (h2 : n < 10 ^ (k + 1)) : (numeral n).length = k + 1 := by
  have hle : ¬ k + 1 < (numeral n).length := by
    rw [lt_numeral_length (Nat.succ_pos k)]
    omega
  have hlt : k < (numeral n).length := by
    by_cases hk : k = 0
    · subst hk
      exact numeral_length_pos
    · exact (lt_numeral_length (Nat.pos_of_ne_zero hk)).mpr h1
  omega

/-- Dividing by a power of 10 takes so many digits away. -/
theorem numeral_length_div (h : 10 ^ k ≤ n) : (numeral n).length = k + (numeral (n / 10 ^ k)).length := by
  induction k generalizing n with
  | zero => simp
  | succ k ih =>
    have hpos : 0 < 10 ^ k := Nat.pow_pos (by decide)
    have hten : 10 ≤ n := by
      rw [Nat.pow_succ] at h
      omega
    have hle : 10 ^ k ≤ n / 10 := by
      rw [Nat.le_div_iff_mul_le (by decide), ← Nat.pow_succ]
      exact h
    have hdiv : n / 10 / 10 ^ k = n / 10 ^ (k + 1) := by rw [Nat.div_div_eq_div_mul, Nat.pow_succ']
    rw [numeral_step hten, List.length_append, ih hle, hdiv]
    simp only [List.length_cons, List.length_nil]
    omega

/-- A sign and `k` digits at most. -/
theorem decimal_length_le {v : Int} (hk : 0 < k) (h : v.natAbs < 10 ^ k) : (decimal v).length ≤ k + 1 := by
  have hlen : (numeral v.natAbs).length ≤ k := by
    by_contra hlt
    have := (lt_numeral_length hk).mp (Nat.lt_of_not_le hlt)
    omega
  unfold decimal
  split
  · exact Nat.succ_le_succ hlen
  · omega

/-- `%0wd`: a numeral filled up with zeros on the left. -/
def zeroPad (w n : Nat) : List UInt8 := List.replicate (w - (numeral n).length) (digit 0) ++ numeral n

theorem zeroPad_length {w : Nat} (hw : 0 < w) (h : n < 10 ^ w) : (zeroPad w n).length = w := by
  have hlen : (numeral n).length ≤ w := by
    by_contra hlt
    have := (lt_numeral_length hw).mp (Nat.lt_of_not_le hlt)
    omega
  unfold zeroPad
  rw [List.length_append, List.length_replicate]
  omega

theorem decimal_length_pos (v : Int) : 0 < (decimal v).length := by
  unfold decimal
  split
  · exact Nat.succ_pos _
  · exact numeral_length_pos

/-! ## Reading back -/

def digitValue (c : UInt8) : Option Nat := if 48 ≤ c.toNat ∧ c.toNat < 58 then some (c.toNat - 48) else none

/-- The number of a text of digits, of which there is at least one. -/
def ofNumeral (t : List UInt8) : Option Nat :=
  if t = [] then none else t.foldlM (fun v c => (digitValue c).map (10 * v + ·)) 0

/-- The integer of a text of digits, with or without `-` in front. -/
def ofDecimal (t : List UInt8) : Option Int :=
  if t.head? = some 45 then (ofNumeral t.tail).map Int.negOfNat else (ofNumeral t).map Int.ofNat

/-- An optional `-` and digits without a leading zero, or `0`. -/
def Canonical (t : List UInt8) : Prop :=
  t = [digit 0] ∨ ∃ sign ds, t = sign ++ ds ∧ (sign = [] ∨ sign = [45]) ∧ ds ≠ [] ∧ ds.head? ≠ some (digit 0) ∧
    ∀ c ∈ ds, digitValue c ≠ none

theorem digitValue_digit {d : Nat} (h : d < 10) : digitValue (digit d) = some d := by
  have hval : (digit d).toNat = 48 + d := UInt8.toNat_ofNat_of_lt' (by show 48 + d < 256; omega)
  unfold digitValue
  rw [hval, if_pos (by omega)]
  congr 1
  omega

theorem numeral_ne_nil : numeral n ≠ [] := List.ne_nil_of_length_pos numeral_length_pos

theorem foldlM_numeral (n : Nat) :
    (numeral n).foldlM (fun v c => (digitValue c).map (10 * v + ·)) 0 = some n := by
  induction n using Nat.strong_induction_on with
  | _ n ih =>
    by_cases h : n < 10
    · rw [numeral_of_lt h]
      simp [digitValue_digit h]
    · rw [numeral_step (by omega), List.foldlM_append, ih (n / 10) (by omega)]
      simp [digitValue_digit (Nat.mod_lt n (show 0 < 10 by decide))]
      omega

theorem ofNumeral_numeral (n : Nat) : ofNumeral (numeral n) = some n := by
  unfold ofNumeral
  rw [if_neg numeral_ne_nil]
  exact foldlM_numeral n

theorem mem_numeral {c : UInt8} (hc : c ∈ numeral n) : ∃ d < 10, c = digit d := by
  induction n using Nat.strong_induction_on with
  | _ n ih =>
    by_cases h : n < 10
    · rw [numeral_of_lt h, List.mem_singleton] at hc
      exact ⟨n, h, hc⟩
    · rw [numeral_step (by omega), List.mem_append, List.mem_singleton] at hc
      rcases hc with hc | hc
      · exact ih (n / 10) (by omega) hc
      · exact ⟨n % 10, Nat.mod_lt _ (by decide), hc⟩

theorem digit_inj {a b : Nat} (ha : a < 10) (hb : b < 10) (h : digit a = digit b) : a = b := by
  have hval := congrArg digitValue h
  rw [digitValue_digit ha, digitValue_digit hb] at hval
  exact Option.some.inj hval

theorem numeral_head (hn : 0 < n) : (numeral n).head? ≠ some (digit 0) := by
  induction n using Nat.strong_induction_on with
  | _ n ih =>
    by_cases h : n < 10
    · rw [numeral_of_lt h]
      intro heq
      have := digit_inj h (by decide) (Option.some.inj heq)
      omega
    · rw [numeral_step (by omega), List.head?_append_of_ne_nil _ numeral_ne_nil]
      exact ih (n / 10) (by omega) (by omega)

theorem ofDecimal_decimal (v : Int) : ofDecimal (decimal v) = some v := by
  unfold decimal ofDecimal
  split_ifs with hneg hsign hsign
  · rw [List.tail_cons, ofNumeral_numeral, Option.map_some, Int.negOfNat_eq, Int.ofNat_eq_natCast]
    congr 1
    omega
  · exact absurd rfl hsign
  · -- the first character is a digit, not the sign
    obtain ⟨d, hd, hc⟩ := mem_numeral (List.mem_of_mem_head? (Option.mem_def.mpr hsign))
    have hval := digitValue_digit hd
    rw [← hc] at hval
    cases hval
  · rw [ofNumeral_numeral, Option.map_some, Int.ofNat_eq_natCast]
    congr 1
    omega

theorem canonical_decimal (v : Int) : Canonical (decimal v) := by
  have hdigits : ∀ c ∈ numeral v.natAbs, digitValue c ≠ none := by
    intro c hc
    obtain ⟨d, hd, rfl⟩ := mem_numeral hc
    rw [digitValue_digit hd]
    exact Option.some_ne_none d
  by_cases h0 : v = 0
  · subst h0
    exact .inl rfl
  · refine .inr ⟨if v < 0 then [45] else [], numeral v.natAbs, ?_, ?_, numeral_ne_nil, numeral_head (by omega), hdigits⟩
    · unfold decimal
      split_ifs <;> rfl
    · split_ifs
      · exact .inr rfl
      · exact .inl rfl

/-! A byte that is no digit is in none of these texts; `decimal` may have a `-`. -/

section NoDigit

variable {c : UInt8} (hc : digitValue c = none)
include hc

theorem ne_digit {d : Nat} (hd : d < 10) : c ≠ digit d := by
  rintro rfl
  rw [digitValue_digit hd] at hc
  exact Option.some_ne_none d hc

theorem not_mem_numeral (n : Nat) : c ∉ numeral n := by
  intro hmem
  obtain ⟨d, hd, heq⟩ := mem_numeral hmem
  exact ne_digit hc hd heq

theorem not_mem_zeroPad (w n : Nat) : c ∉ zeroPad w n := by
  unfold zeroPad
  intro hmem
  rcases List.mem_append.mp hmem with h | h
  · exact ne_digit hc (by decide) (List.eq_of_mem_replicate h)
  · exact not_mem_numeral hc n h

theorem not_mem_decimal (hminus : c ≠ 45) (v : Int) : c ∉ decimal v := by
  unfold decimal
  split_ifs
  · rw [List.mem_cons, not_or]
    exact ⟨hminus, not_mem_numeral hc _⟩
  · exact not_mem_numeral hc _

end NoDigit

/-- The zeros in front do not count. -/
theorem ofNumeral_zeroPad (w n : Nat) : ofNumeral (zeroPad w n) = some n := by
  have hzeros : ∀ k, (List.replicate k (digit 0)).foldlM (fun v c => (digitValue c).map (10 * v + ·)) 0 = some 0 := by
    intro k
    induction k with
    | zero => rfl
    | succ k ih =>
      rw [List.replicate_succ, List.foldlM_cons, digitValue_digit (by decide)]
      exact ih
  unfold ofNumeral zeroPad
  rw [if_neg (by simp [numeral_ne_nil]), List.foldlM_append, hzeros]
  exact foldlM_numeral n

theorem zeroPad_inj {w a b : Nat} (h : zeroPad w a = zeroPad w b) : a = b := by
  have hval := congrArg ofNumeral h
  rw [ofNumeral_zeroPad, ofNumeral_zeroPad] at hval
  exact Option.some.inj hval

end BeanRaft.Lib
