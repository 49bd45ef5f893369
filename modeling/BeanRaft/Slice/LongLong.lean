import BeanRaft.Lib.CInt
import BeanRaft.Lib.Decimal
import BeanRaft.Lib.Heap

/-!
# BeanRaft.Slice.LongLong — the integer formatters under a Slice

* `digits10` and `ll2string` of `util.cpp`: the length first, then two digits at a time from a table, right to left.
* `sdsll2str` and `sdsull2str` of `sds.cpp`: the digits in reverse order, turned around in place.

Both write into a caller's buffer, `none` standing for a write outside it.  `digits10_eq` and `digits_get`: what the
length and the table of `ll2string` are.
-/

namespace BeanRaft.Slice

open CInt Lib

/-- A byte of memory; `none` is uninitialised. -/
abbrev Byte := Option UInt8

/-! ## util.cpp -/

/-- Number of digits of `v`. -/
def digits10 (v : Nat) : Nat :=
  if v < 10 then 1
  else if v < 100 then 2
  else if v < 1000 then 3
  else if v < 1000000000000 then
    if v < 100000000 then
      if v < 1000000 then
        if v < 10000 then 4 else 5 + if 100000 ≤ v then 1 else 0
      else 7 + if 10000000 ≤ v then 1 else 0
    else if v < 10000000000 then 9 + if 1000000000 ≤ v then 1 else 0
    else 11 + if 100000000000 ≤ v then 1 else 0
  else 12 + digits10 (v / 1000000000000)
termination_by v
decreasing_by omega

def digits : List UInt8 :=
  ("0001020304050607080910111213141516171819" ++
    "2021222324252627282930313233343536373839" ++
    "4041424344454647484950515253545556575859" ++
    "6061626364656667686970717273747576777879" ++
    "8081828384858687888990919293949596979899").toList.map fun c => UInt8.ofNat c.toNat

def LLONG_MIN : Int := -2 ^ 63

def LLONG_MAX : Nat := 2 ^ 63 - 1

/-- The main loop of `ll2string`: the buffer, `next` and `value` after it. -/
def ll2stringLoop (dst : List Byte) (next value : Nat) : Option (List Byte × Nat × Nat) :=
  if 100 ≤ value then
    digits[value % 100 * 2 + 1]?.bind fun c1 => (write dst next [some c1]).bind fun dst =>
      digits[value % 100 * 2]?.bind fun c0 => (write dst (uint32 (next - 1)) [some c0]).bind fun dst =>
        ll2stringLoop dst (uint32 (next - 2)) (value / 100)
  else some (dst, next, value)
termination_by value
decreasing_by omega

/-- The last 1-2 digits. -/
def ll2stringLast (dst : List Byte) (next value : Nat) : Option (List Byte) :=
  if value < 10 then write dst next [some (digit value)]
  else
    digits[value * 2 + 1]?.bind fun c1 => (write dst next [some c1]).bind fun dst =>
      digits[value * 2]?.bind fun c0 => write dst (uint32 (next - 1)) [some c0]

def ll2stringFill (dst : List Byte) (next value : Nat) : Option (List Byte) :=
  (ll2stringLoop dst next value).bind fun (dst, next, value) => ll2stringLast dst next value

/-- `ll2string` (util.cpp line 39): the buffer after the call and the length returned. -/
def ll2string (dst : List Byte) (dstlen : Nat) (svalue : Int64) : Option (List Byte × Nat) :=
  let v := svalue.toInt
  let value := if v < 0 then (if v ≠ LLONG_MIN then uint64 (-v) else LLONG_MAX + 1) else uint64 v
  let negative := if v < 0 then 1 else 0
  let length := digits10 value + negative
  if dstlen ≤ length then some (dst, 0)
  else
    (write dst length [some 0]).bind fun dst =>
      (ll2stringFill dst (uint32 (length - 1)) value).bind fun dst =>
        if negative = 1 then (write dst 0 [some 45]).map (·, length) else some (dst, length)

/-! ## sds.cpp -/

/-- The digits of `v` in reverse order from `p` on; the buffer and the end of the digits. -/
def putDigits (s : List Byte) (p v : Nat) : Option (List Byte × Nat) :=
  (write s p [some (digit (v % 10))]).bind fun s =>
    if v / 10 = 0 then some (s, p + 1) else putDigits s (p + 1) (v / 10)
termination_by v
decreasing_by omega

/-- The bytes from `s` to `p` turned around. -/
def reverseRange (buf : List Byte) (s p : Nat) : Option (List Byte) :=
  if s < p then
    buf[p]?.bind fun c => buf[s]?.bind fun aux =>
      (write buf s [c]).bind fun buf => (write buf p [aux]).bind fun buf => reverseRange buf (s + 1) (p - 1)
  else some buf
termination_by p - s
decreasing_by omega

/-- The null term, the reversal and the length. -/
def finishDigits (s : List Byte) (p : Nat) : Option (List Byte × Nat) :=
  (write s p [some 0]).bind fun s => (reverseRange s 0 (p - 1)).map (·, p)

def SDS_LLSTR_SIZE : Nat := 21

/-- `sdsll2str` (sds.cpp line 450), negation in two's complement. -/
def sdsll2str (s : List Byte) (value : Int64) : Option (List Byte × Nat) :=
  let v := value.toInt
  (putDigits s 0 (uint64 (if v < 0 then -v else v))).bind fun (s, p) =>
    if v < 0 then (write s p [some 45]).bind fun s => finishDigits s (p + 1) else finishDigits s p

def sdsull2str (s : List Byte) (v : UInt64) : Option (List Byte × Nat) :=
  (putDigits s 0 v.toNat).bind fun (s, p) => finishDigits s p

/-! ## The length and the table -/

theorem digits10_eq (v : Nat) : digits10 v = (numeral v).length := by
  induction v using Nat.strong_induction_on with
  | _ v ih =>
    unfold digits10
    split_ifs with h1 h2 h3 h4 h5 h6 h7 h8 h9 h10 h11 h12
    · rw [numeral_of_lt h1]
      rfl
    · exact (numeral_length (k := 1) (by omega) (by omega)).symm
    · exact (numeral_length (k := 2) (by omega) (by omega)).symm
    · exact (numeral_length (k := 3) (by omega) (by omega)).symm
    · exact (numeral_length (k := 5) (by omega) (by omega)).symm
    · exact (numeral_length (k := 4) (by omega) (by omega)).symm
    · exact (numeral_length (k := 7) (by omega) (by omega)).symm
    · exact (numeral_length (k := 6) (by omega) (by omega)).symm
    · exact (numeral_length (k := 9) (by omega) (by omega)).symm
    · exact (numeral_length (k := 8) (by omega) (by omega)).symm
    · exact (numeral_length (k := 11) (by omega) (by omega)).symm
    · exact (numeral_length (k := 10) (by omega) (by omega)).symm
    · rw [ih (v / 1000000000000) (by omega)]
      exact (numeral_length_div (k := 12) (by omega)).symm

theorem digits_eq : digits = (List.range 100).flatMap fun k => [digit (k / 10), digit (k % 10)] := by
  unfold digits
  rw [String.toList_append, String.toList_append, String.toList_append, String.toList_append]
  simp only [String.reduceToList]
  decide +kernel

/-- Pairs that are laid out one after the other. -/
theorem flatMap_pair_get {α : Type} (f g : Nat → α) : ∀ {n k : Nat}, k < n →
    ((List.range n).flatMap fun k => [f k, g k])[k * 2]? = some (f k) ∧
      ((List.range n).flatMap fun k => [f k, g k])[k * 2 + 1]? = some (g k) := by
  intro n
  induction n with
  | zero =>
    intro k hk
    omega
  | succ n ih =>
    intro k hk
    have hlen : ((List.range n).flatMap fun k => [f k, g k]).length = n * 2 := by simp
    rw [List.range_succ, List.flatMap_append, List.flatMap_singleton]
    by_cases hkn : k < n
    · rw [List.getElem?_append_left (by omega), List.getElem?_append_left (by omega)]
      exact ih hkn
    · obtain rfl : k = n := by omega
      rw [List.getElem?_append_right (by omega), List.getElem?_append_right (by omega), hlen, Nat.sub_self,
        Nat.add_sub_cancel_left]
      exact ⟨rfl, rfl⟩

/-- The table has the two digits of each number below 100. -/
theorem digits_get (k : Nat) (hk : k < 100) :
    digits[k * 2]? = some (digit (k / 10)) ∧ digits[k * 2 + 1]? = some (digit (k % 10)) := by
  rw [digits_eq]
  exact flatMap_pair_get (fun k => digit (k / 10)) (fun k => digit (k % 10)) hk

theorem decimal_int64_length (v : Int64) : (decimal v.toInt).length ≤ 20 := by
  have h1 := v.le_toInt
  have h2 := v.toInt_lt
  exact decimal_length_le (k := 19) (by decide) (by omega)

/-- The unsigned value that the digits are taken of. -/
theorem unsigned_eq {v : Int} (h1 : -2 ^ 63 ≤ v) (h2 : v < 2 ^ 63) :
    (if v < 0 then (if v ≠ LLONG_MIN then uint64 (-v) else LLONG_MAX + 1) else uint64 v) = v.natAbs := by
  unfold LLONG_MIN LLONG_MAX
  split_ifs with hneg hmin
  · rw [uint64_of_range (by omega) (by omega)]
    omega
  · omega
  · rw [uint64_of_range (by omega) (by omega)]
    omega

end BeanRaft.Slice
