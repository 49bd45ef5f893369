import BeanRaft.Lib.Stores
import BeanRaft.Slice.LongLong

/-!
# BeanRaft.Slice.Stores — what `ll2string` stores, and where

* `ll2stringOps`: the run of `ll2string` as the list of its stores, its accesses to the table and its subtractions from
  the unsigned `next`.  `ll2string_ops`: `ll2string` makes these stores, and no others.
* `ll2stringOps_written`: the stores put the null term and the numeral down, each place once; the digits from right to
  left.
* `ll2string_stays`: so the run stays in the buffer, in the table, and in the range of `next`, for every value.
-/

namespace BeanRaft.Slice

open CInt Lib

/-! ## The run of ll2string -/

/-- A store into `dst`, from the table or not, or a subtraction from `next`. -/
inductive Op
  | store (next : Nat) (c : UInt8)
  | copy (next i : Nat)
  | sub (next k : Nat)
  deriving DecidableEq, Repr

/-- What is done to `dst`; `none` for an access outside of it or of the table. -/
def Op.run (dst : List Byte) : Op → Option (List Byte)
  | .store next c => write dst next [some c]
  | .copy next i => digits[i]?.bind fun c => write dst next [some c]
  | .sub _ _ => some dst

/-- The main loop: its operations, and `next` and `value` after it. -/
def loopOps (next value : Nat) : List Op × Nat × Nat :=
  if 100 ≤ value then
    let r := loopOps (uint32 (next - 2)) (value / 100)
    (.copy next (value % 100 * 2 + 1) :: .sub next 1 :: .copy (uint32 (next - 1)) (value % 100 * 2) :: .sub next 2 :: r.1,
      r.2)
  else ([], next, value)
termination_by value
decreasing_by omega

/-- The last 1-2 digits. -/
def lastOps (next value : Nat) : List Op :=
  if value < 10 then [.store next (digit value)]
  else [.copy next (value * 2 + 1), .sub next 1, .copy (uint32 (next - 1)) (value * 2)]

def fillOps (next value : Nat) : List Op :=
  let r := loopOps next value
  r.1 ++ lastOps r.2.1 r.2.2

/-- The operations of `ll2string` (util.cpp line 39), and the length returned. -/
def ll2stringOps (dstlen : Nat) (svalue : Int64) : List Op × Nat :=
  let v := svalue.toInt
  let value := if v < 0 then (if v ≠ LLONG_MIN then uint64 (-v) else LLONG_MAX + 1) else uint64 v
  let negative := if v < 0 then 1 else 0
  let length := digits10 value + negative
  if dstlen ≤ length then ([], 0)
  else (.store length 0 :: .sub length 1 :: fillOps (uint32 (length - 1)) value ++
    (if negative = 1 then [.store 0 45] else []), length)

/-- The place and the byte of a store. -/
def Op.written : Op → List (Nat × UInt8)
  | .store next c => [(next, c)]
  | .copy next i => (digits[i]?.map fun c => (next, c)).toList
  | .sub _ _ => []

/-- The access is in the table, and the subtraction does not wrap. -/
def Op.InRange : Op → Prop
  | .store _ _ => True
  | .copy _ i => i < 200
  | .sub next k => k ≤ next

@[simp] theorem Op.inRange_copy {next i : Nat} : (Op.copy next i).InRange ↔ i < 200 := Iff.rfl

@[simp] theorem Op.inRange_sub {next k : Nat} : (Op.sub next k).InRange ↔ k ≤ next := Iff.rfl

@[simp] theorem Op.inRange_store {next : Nat} {c : UInt8} : (Op.store next c).InRange := trivial

/-! ## ll2string makes these stores -/

section Run

variable {dst : List Byte} {next value : Nat} {ops us : List Op}

def runOps (dst : List Byte) (ops : List Op) : Option (List Byte) := ops.foldlM Op.run dst

theorem runOps_nil : runOps dst [] = some dst := rfl

theorem runOps_cons (op : Op) : runOps dst (op :: ops) = (op.run dst).bind fun dst => runOps dst ops := List.foldlM_cons

theorem runOps_store (c : UInt8) :
    runOps dst (.store next c :: ops) = (write dst next [some c]).bind fun dst => runOps dst ops := runOps_cons _

theorem runOps_copy (i : Nat) : runOps dst (.copy next i :: ops) =
    digits[i]?.bind fun c => (write dst next [some c]).bind fun dst => runOps dst ops := by
  rw [runOps_cons, Op.run, Option.bind_assoc]

theorem runOps_sub (k : Nat) : runOps dst (.sub next k :: ops) = runOps dst ops := runOps_cons _

theorem runOps_append : runOps dst (ops ++ us) = (runOps dst ops).bind fun dst => runOps dst us := List.foldlM_append

theorem loopOps_fst (h : 100 ≤ value) : (loopOps next value).1 =
    .copy next (value % 100 * 2 + 1) :: .sub next 1 :: .copy (uint32 (next - 1)) (value % 100 * 2) :: .sub next 2 ::
      (loopOps (uint32 (next - 2)) (value / 100)).1 := by
  rw [loopOps, if_pos h]

theorem loopOps_snd (h : 100 ≤ value) :
    (loopOps next value).2 = (loopOps (uint32 (next - 2)) (value / 100)).2 := by
  rw [loopOps, if_pos h]

theorem loopOps_last (h : ¬ 100 ≤ value) : loopOps next value = ([], next, value) := by rw [loopOps, if_neg h]

theorem ll2stringLoop_ops : ∀ (value next : Nat) (dst : List Byte), ll2stringLoop dst next value =
    (runOps dst (loopOps next value).1).map fun dst => (dst, (loopOps next value).2) := by
  intro value
  induction value using Nat.strong_induction_on with
  | _ value ih =>
    intro next dst
    rw [ll2stringLoop]
    by_cases hv : 100 ≤ value
    · rw [if_pos hv, loopOps_fst hv, loopOps_snd hv, runOps_copy, Option.map_bind]
      refine congrArg _ (funext fun c1 => ?_)
      rw [Function.comp_apply, Option.map_bind]
      refine congrArg _ (funext fun dst => ?_)
      rw [Function.comp_apply, runOps_sub, runOps_copy, Option.map_bind]
      refine congrArg _ (funext fun c0 => ?_)
      rw [Function.comp_apply, Option.map_bind]
      refine congrArg _ (funext fun dst => ?_)
      rw [Function.comp_apply, runOps_sub]
      exact ih (value / 100) (by omega) (uint32 (next - 2)) dst
    · rw [if_neg hv, loopOps_last hv]
      rfl

theorem ll2stringLast_ops : ll2stringLast dst next value = runOps dst (lastOps next value) := by
  unfold ll2stringLast lastOps
  by_cases hv : value < 10
  · rw [if_pos hv, if_pos hv, runOps_store]
    exact (Option.bind_fun_some _).symm
  · rw [if_neg hv, if_neg hv]
    simp only [runOps_copy, runOps_sub, runOps_nil, Option.bind_fun_some]

theorem ll2stringFill_ops : ll2stringFill dst next value = runOps dst (fillOps next value) := by
  unfold ll2stringFill fillOps
  rw [ll2stringLoop_ops, Option.bind_map, runOps_append]
  congr 1
  funext dst
  exact ll2stringLast_ops

/-- **The operations are those of `ll2string`.** -/
theorem ll2string_ops (dst : List Byte) (dstlen : Nat) (svalue : Int64) : ll2string dst dstlen svalue =
    (runOps dst (ll2stringOps dstlen svalue).1).map fun dst => (dst, (ll2stringOps dstlen svalue).2) := by
  unfold ll2string ll2stringOps
  dsimp only
  generalize (if svalue.toInt < 0 then (if svalue.toInt ≠ LLONG_MIN then uint64 (-svalue.toInt) else LLONG_MAX + 1)
    else uint64 svalue.toInt) = value
  generalize (if svalue.toInt < 0 then 1 else 0) = negative
  by_cases hroom : dstlen ≤ digits10 value + negative
  · rw [if_pos hroom, if_pos hroom]
    rfl
  · rw [if_neg hroom, if_neg hroom]
    have hsign : ∀ dst : List Byte, (if negative = 1 then (write dst 0 [some 45]).map (·, digits10 value + negative)
        else some (dst, digits10 value + negative)) =
        (runOps dst (if negative = 1 then [.store 0 45] else [])).map (·, digits10 value + negative) := by
      intro dst
      split_ifs
      · rw [runOps_store]
        show _ = ((write dst 0 [some 45]).bind some).map _
        rw [Option.bind_fun_some]
      · rfl
    simp only [List.cons_append, runOps_store, runOps_sub, runOps_append, Option.map_bind, ll2stringFill_ops, hsign,
      Function.comp_def]

/-! ## Where the stores go -/

theorem digits_length : digits.length = 200 := by
  rw [digits_eq]
  simp

/-- With the table never left, the run is its stores. -/
theorem runOps_written (h : ∀ op ∈ ops, op.InRange) :
    runOps dst ops = storeAll dst ((ops.flatMap Op.written).map (Prod.map id some)) := by
  induction ops generalizing dst with
  | nil => rfl
  | cons op ops ih =>
    have hops : ∀ dst, runOps dst ops = storeAll dst ((ops.flatMap Op.written).map (Prod.map id some)) := fun dst =>
      ih fun op hop => h op (List.mem_cons_of_mem _ hop)
    have hop := h op List.mem_cons_self
    rw [runOps_cons, List.flatMap_cons]
    cases op with
    | store next c =>
      simp only [hops]
      rfl
    | copy next i =>
      have hi : i < digits.length := digits_length.symm ▸ hop
      simp only [hops, Op.run, Op.written, List.getElem?_eq_getElem hi]
      rfl
    | sub next k => exact hops dst

theorem fillOps_step (h : 100 ≤ value) : fillOps next value =
    .copy next (value % 100 * 2 + 1) :: .sub next 1 :: .copy (uint32 (next - 1)) (value % 100 * 2) :: .sub next 2 ::
      fillOps (uint32 (next - 2)) (value / 100) := by
  show (loopOps next value).1 ++ lastOps (loopOps next value).2.1 (loopOps next value).2.2 = _
  rw [loopOps_fst h, loopOps_snd h]
  rfl

theorem fillOps_last (h : value < 100) : fillOps next value = lastOps next value := by
  unfold fillOps
  rw [loopOps_last (by omega)]
  rfl

/-- Two digits of the table, with `next` above them. -/
theorem written_pair {k : Nat} (hk : k < 100) (hnext : next < 2 ^ 32) (hpos : 1 ≤ next) :
    Op.written (.copy next (k * 2 + 1)) = [(next, digit (k % 10))] ∧
      Op.written (.copy (uint32 (next - 1)) (k * 2)) = [(next - 1, digit (k / 10))] := by
  obtain ⟨h0, h1⟩ := digits_get k hk
  have hu : uint32 ((next : Int) - 1) = next - 1 := by
    rw [uint32_of_range (by omega) (by omega)]
    omega
  constructor
  · simp [Op.written, h1]
  · simp [Op.written, h0, hu]

theorem lastOps_written {off : Nat} (hv : value < 100) (hlt : next < 2 ^ 32)
    (hnext : next + 1 = off + (numeral value).length) :
    (lastOps next value).flatMap Op.written = (placed off (numeral value)).reverse ∧
      ∀ op ∈ lastOps next value, op.InRange := by
  unfold lastOps
  by_cases hten : value < 10
  · rw [if_pos hten]
    rw [numeral_of_lt hten] at hnext ⊢
    obtain rfl : next = off := Nat.succ.inj hnext
    exact ⟨rfl, List.forall_mem_singleton.mpr Op.inRange_store⟩
  · rw [if_neg hten]
    rw [numeral_of_lt_hundred (by omega) (by omega)] at hnext ⊢
    obtain rfl : next = off + 1 := Nat.succ.inj hnext
    obtain ⟨h1, h0⟩ := written_pair (k := value) (by omega) hlt (by omega)
    constructor
    · simp only [List.flatMap_cons, h1, h0]
      simp [Op.written, placed]
    · simp only [List.forall_mem_cons, Op.inRange_copy, Op.inRange_sub]
      exact ⟨by omega, by omega, by omega, List.forall_mem_nil _⟩

/-- **The digits go down from right to left**, from `next` to the place `off` of the first one. -/
theorem fillOps_written : ∀ value next off : Nat, next < 2 ^ 32 → next + 1 = off + (numeral value).length →
    (fillOps next value).flatMap Op.written = (placed off (numeral value)).reverse ∧
      ∀ op ∈ fillOps next value, op.InRange := by
  intro value
  induction value using Nat.strong_induction_on with
  | _ value ih =>
    intro next off hlt hnext
    by_cases hv : 100 ≤ value
    · have hstep := numeral_two_step hv
      have hpos := numeral_length_pos (n := value / 100)
      have hlen : (numeral value).length = (numeral (value / 100)).length + 2 := by rw [hstep, List.length_append]; rfl
      have hu : uint32 ((next : Int) - 2) = next - 2 := by
        rw [uint32_of_range (by omega) (by omega)]
        omega
      obtain ⟨hrest, hin⟩ := ih (value / 100) (by omega) (next - 2) off (by omega) (by omega)
      obtain ⟨h1, h0⟩ := written_pair (k := value % 100) (by omega) hlt (by omega)
      rw [fillOps_step hv, hu]
      constructor
      · have hoff : off + (numeral (value / 100)).length = next - 1 := by omega
        have hoff1 : next - 1 + 1 = next := by omega
        simp only [List.flatMap_cons, h1, h0, hrest, hstep, placed_append, hoff, placed, hoff1]
        simp [Op.written]
      · simp only [List.forall_mem_cons, Op.inRange_copy, Op.inRange_sub]
        exact ⟨by omega, by omega, by omega, by omega, hin⟩
    · rw [fillOps_last (by omega)]
      exact lastOps_written (by omega) hlt hnext

end Run

/-! ## The numeral in the buffer -/

section Numeral

variable {svalue : Int64} {dstlen : Nat}

theorem decimal_length_eq (v : Int) : digits10 v.natAbs + (if v < 0 then 1 else 0) = (decimal v).length := by
  rw [digits10_eq]
  unfold decimal
  split_ifs <;> rfl

theorem ll2stringOps_eq (dstlen : Nat) (svalue : Int64) :
    ll2stringOps dstlen svalue = if dstlen ≤ (decimal svalue.toInt).length then ([], 0)
      else (.store (decimal svalue.toInt).length 0 :: .sub (decimal svalue.toInt).length 1 ::
        fillOps ((decimal svalue.toInt).length - 1) svalue.toInt.natAbs ++
          (if svalue.toInt < 0 then [.store 0 45] else []), (decimal svalue.toInt).length) := by
  have h20 := decimal_int64_length svalue
  have hpos := decimal_length_pos svalue.toInt
  have hnext : uint32 (((decimal svalue.toInt).length : Int) - 1) = (decimal svalue.toInt).length - 1 := by
    rw [uint32_of_range (by omega) (by omega)]
    omega
  unfold ll2stringOps
  simp only [unsigned_eq svalue.le_toInt svalue.toInt_lt, decimal_length_eq, hnext]
  by_cases hneg : svalue.toInt < 0
  · simp only [if_pos hneg, if_true]
  · simp only [if_neg hneg, Nat.zero_ne_one, if_false]

theorem ll2stringOps_refused (h : dstlen ≤ (decimal svalue.toInt).length) : ll2stringOps dstlen svalue = ([], 0) := by
  rw [ll2stringOps_eq, if_pos h]

/-- The sign is stored in front of the digits. -/
theorem sign_written (v : Int) : ∃ sign : List UInt8, decimal v = sign ++ numeral v.natAbs ∧
    (if v < 0 then [Op.store 0 45] else []).flatMap Op.written = (placed 0 sign).reverse ∧
      ∀ op ∈ (if v < 0 then [Op.store 0 45] else []), op.InRange := by
  unfold decimal
  split_ifs
  · exact ⟨[45], rfl, rfl, List.forall_mem_singleton.mpr Op.inRange_store⟩
  · exact ⟨[], rfl, rfl, List.forall_mem_nil _⟩

/-- **Every place of the text once**, and the null term first. -/
theorem ll2stringOps_written (h : (decimal svalue.toInt).length < dstlen) :
    (ll2stringOps dstlen svalue).1.flatMap Op.written = (placed 0 (decimal svalue.toInt ++ [0])).reverse ∧
      (∀ op ∈ (ll2stringOps dstlen svalue).1, op.InRange) ∧
      (ll2stringOps dstlen svalue).2 = (decimal svalue.toInt).length := by
  have h20 := decimal_int64_length svalue
  have hpos := decimal_length_pos svalue.toInt
  obtain ⟨sign, hdec, hsign, hsin⟩ := sign_written svalue.toInt
  have hlen : (decimal svalue.toInt).length = sign.length + (numeral svalue.toInt.natAbs).length := by
    rw [hdec, List.length_append]
  obtain ⟨hfill, hin⟩ := fillOps_written svalue.toInt.natAbs ((decimal svalue.toInt).length - 1) sign.length (by omega)
    (by omega)
  rw [ll2stringOps_eq, if_neg (Nat.not_le_of_lt h)]
  refine ⟨?_, ?_, rfl⟩
  · -- the text from right to left: the null term, the digits, the sign
    have htext : placed 0 (decimal svalue.toInt) = placed 0 sign ++ placed sign.length (numeral svalue.toInt.natAbs) := by
      rw [hdec, placed_append, Nat.zero_add]
    rw [placed_append, List.reverse_append, Nat.zero_add, htext, List.reverse_append]
    simp only [List.cons_append, List.flatMap_cons, List.flatMap_append, hfill, hsign]
    rfl
  · simp only [List.cons_append, List.forall_mem_cons, List.forall_mem_append, Op.inRange_sub]
    exact ⟨Op.inRange_store, by omega, hin, hsin⟩

/-- **`ll2string` writes the decimal numeral** and its null term, and returns the length, in a buffer that has room. -/
theorem ll2string_room {dst : List Byte} (h : (decimal svalue.toInt).length < dstlen) (hdst : dstlen ≤ dst.length) :
    ll2string dst dstlen svalue = some ((decimal svalue.toInt).map some ++ some 0 ::
      dst.drop ((decimal svalue.toInt).length + 1), (decimal svalue.toInt).length) := by
  obtain ⟨hwritten, hin, hlen⟩ := ll2stringOps_written h
  have hM : (dst.take ((decimal svalue.toInt).length + 1)).length = ((decimal svalue.toInt ++ [0]).map some).length := by
    rw [List.length_take, List.length_map, List.length_append, List.length_singleton]
    omega
  have hstore := storeAll_reverse [] (dst.drop ((decimal svalue.toInt).length + 1)) hM
  rw [List.nil_append, List.nil_append, List.take_append_drop, List.length_nil] at hstore
  rw [ll2string_ops, hlen, runOps_written hin, hwritten, List.map_reverse, map_placed, hstore]
  simp

/-- Without room it changes nothing. -/
theorem ll2string_refused {dst : List Byte} (h : dstlen ≤ (decimal svalue.toInt).length) :
    ll2string dst dstlen svalue = some (dst, 0) := by
  rw [ll2string_ops, ll2stringOps_refused h]
  rfl

theorem ll2string_eq {dst : List Byte} {svalue : Int64} (h : (decimal svalue.toInt).length < dst.length) :
    ll2string dst dst.length svalue = some ((decimal svalue.toInt).map some ++ some 0 ::
      dst.drop ((decimal svalue.toInt).length + 1), (decimal svalue.toInt).length) :=
  ll2string_room h le_rfl

theorem ll2stringOps_inRange (dstlen : Nat) (svalue : Int64) : ∀ op ∈ (ll2stringOps dstlen svalue).1, op.InRange := by
  by_cases h : dstlen ≤ (decimal svalue.toInt).length
  · rw [ll2stringOps_refused h]
    exact List.forall_mem_nil _
  · exact (ll2stringOps_written (Nat.lt_of_not_le h)).2.1

/-- The run of `ll2string` on `svalue` and a buffer of `dstlen` bytes stays where it may go. -/
structure Stays (svalue : Int64) (dstlen : Nat) : Prop where
  /-- `ll2string` makes the stores of `ll2stringOps`, in their order, and returns its length. -/
  run : ∀ dst, ll2string dst dstlen svalue =
    (runOps dst (ll2stringOps dstlen svalue).1).map fun dst => (dst, (ll2stringOps dstlen svalue).2)
  /-- With room: the length of the numeral, and a store of each of its bytes and of the null term at its place. -/
  length : (decimal svalue.toInt).length < dstlen → (ll2stringOps dstlen svalue).2 = (decimal svalue.toInt).length
  bytes : (decimal svalue.toInt).length < dstlen →
    ((ll2stringOps dstlen svalue).1.flatMap Op.written).Perm (placed 0 (decimal svalue.toInt ++ [0]))
  indices : (decimal svalue.toInt).length < dstlen →
    ((ll2stringOps dstlen svalue).1.flatMap Op.written).map Prod.fst =
      (List.range ((decimal svalue.toInt).length + 1)).reverse
  /-- Without room: 0, and no store. -/
  refused : dstlen ≤ (decimal svalue.toInt).length → ll2stringOps dstlen svalue = ([], 0)
  /-- What is subtracted from `next` is not above it. -/
  noWrap : ∀ next k, .sub next k ∈ (ll2stringOps dstlen svalue).1 → k ≤ next
  table : ∀ next i, .copy next i ∈ (ll2stringOps dstlen svalue).1 → i < 200
  /-- The buffer after the call and the length returned. -/
  result : ∀ dst, dstlen ≤ dst.length → ll2string dst dstlen svalue =
    if (decimal svalue.toInt).length < dstlen then some ((decimal svalue.toInt).map some ++ some 0 ::
      dst.drop ((decimal svalue.toInt).length + 1), (decimal svalue.toInt).length)
    else some (dst, 0)

/-- **`ll2string` stays in its buffer**, and `digits10` is the number of decimal digits. -/
theorem ll2string_stays : (∀ (svalue : Int64) (dstlen : Nat), Stays svalue dstlen) ∧
    ∀ v : UInt64, digits10 v.toNat = (numeral v.toNat).length := by
  refine ⟨fun svalue dstlen => ?_, fun v => digits10_eq v.toNat⟩
  refine {
    run := fun dst => ll2string_ops dst dstlen svalue
    length := fun h => (ll2stringOps_written h).2.2
    bytes := fun h => ?_
    indices := fun h => ?_
    refused := ll2stringOps_refused
    noWrap := fun next k hop => ll2stringOps_inRange dstlen svalue _ hop
    table := fun next i hop => ll2stringOps_inRange dstlen svalue _ hop
    result := fun dst hdst => ?_ }
  · rw [(ll2stringOps_written h).1]
    exact List.reverse_perm _
  · rw [(ll2stringOps_written h).1, List.map_reverse, map_fst_placed, List.range_eq_range', List.length_append,
      List.length_singleton]
  · by_cases h : (decimal svalue.toInt).length < dstlen
    · rw [if_pos h]
      exact ll2string_room h hdst
    · rw [if_neg h]
      exact ll2string_refused (Nat.le_of_not_lt h)

end Numeral

end BeanRaft.Slice
