import BeanRaft.Lib.CInt
import BeanRaft.Lib.Heap

/-!
# BeanRaft.Lib.Snprintf — a buffer that is filled by calls of snprintf

The calls write at an `int` offset that each of them moves on by the value it returns, and each is given what is left of
the buffer as its size.

* `returned`: the value of `snprintf`, which is the length of the whole text also when it is cut.
* `Print`: the offset and the calls made so far; `Print.Within`: all of them stayed in the buffer.
* `within_snprintf`: one more call does if and only if the calls before did and the new offset is in the buffer.
* `Print.contents`: the buffer after the calls; `Filled`: it begins with a text, and the next call continues there.
-/

namespace BeanRaft.Lib

open CInt

/-- What `snprintf` returns: the length of the text, and -1 when this is not an `int`. -/
def returned (text : List UInt8) : Int := if (text.length : Int) ≤ INT_MAX then text.length else -1

/-- A call that writes to the buffer; `sprintf` is given no size. -/
structure PrintCall where
  offset : Int
  size : Option Int
  text : List UInt8
  deriving DecidableEq, Repr

/-- How many bytes it writes, with the null term. -/
def PrintCall.written (c : PrintCall) : Nat :=
  match c.size with
  | none => c.text.length + 1
  | some size => min (c.text.length + 1) (uint64 size)

/-- The bytes it writes: what the size has room for, and the null term. -/
def PrintCall.bytes (c : PrintCall) : List UInt8 :=
  match c.size with
  | none => c.text ++ [0]
  | some size => if uint64 size = 0 then [] else c.text.take (uint64 size - 1) ++ [0]

/-- The call on a buffer, whose bytes are unknown before they are written. -/
def PrintCall.run (buf : List (Option UInt8)) (c : PrintCall) : Option (List (Option UInt8)) :=
  if 0 ≤ c.offset then write buf c.offset.toNat (c.bytes.map some) else none

/-- The call is made in a buffer of `cap` bytes, with a size that is not negative, and writes nothing outside. -/
structure PrintCall.Within (cap : Nat) (c : PrintCall) : Prop where
  nonneg : 0 ≤ c.offset
  le : c.offset ≤ cap
  size : ∀ size ∈ c.size, 0 ≤ size
  written : c.offset + c.written ≤ cap

/-- The offset and the calls so far. -/
structure Print where
  offset : Int
  calls : List PrintCall
  deriving DecidableEq, Repr

namespace Print

def start : Print := ⟨0, []⟩

variable (p : Print) (maxlen : Int) (text : List UInt8)

def left : Int := int32 (maxlen - p.offset)

/-- `offset += snprintf(buf + offset, maxlen - offset, ..)` -/
def snprintf : Print := ⟨int32 (p.offset + returned text), p.calls ++ [⟨p.offset, some (p.left maxlen), text⟩]⟩

/-- `offset = sprintf(buf, ..)` -/
def sprintf : Print := ⟨returned text, p.calls ++ [⟨0, none, text⟩]⟩

/-- `offset += strftime(buf + offset, maxlen - offset, ..)`, which returns 0 when the text does not fit. -/
def strftime : Print :=
  ⟨int32 (p.offset + if text.length < uint64 (p.left maxlen) then text.length else 0),
    p.calls ++ [⟨p.offset, some (p.left maxlen), text⟩]⟩

/-- A buffer of `cap` bytes after all calls; what a call of `strftime` without room leaves is taken from `snprintf`. -/
def contents (cap : Nat) : Option (List (Option UInt8)) := p.calls.foldlM PrintCall.run (List.replicate cap none)

/-- All calls were made within the buffer, and the offset is in it. -/
structure Within (cap : Nat) : Prop where
  calls : ∀ c ∈ p.calls, c.Within cap
  nonneg : 0 ≤ p.offset
  le : p.offset ≤ cap

variable {p text} {cap : Nat}

theorem start_within : start.Within cap := ⟨fun _ hc => absurd hc List.not_mem_nil, Int.le_refl 0, Int.natCast_nonneg cap⟩

/-! ## One call -/

theorem returned_range (text : List UInt8) : -1 ≤ returned text ∧ returned text ≤ INT_MAX := by
  unfold returned INT_MAX
  split <;> omega

theorem returned_of_le (h : (text.length : Int) ≤ INT_MAX) : returned text = text.length := if_pos h

/-- At an offset in the buffer the size is what is left of it. -/
theorem left_of_within (hcap : (cap : Int) ≤ INT_MAX) (h0 : 0 ≤ p.offset) (hle : p.offset ≤ cap) :
    p.left cap = cap - p.offset := by
  unfold INT_MAX at hcap
  exact int32_of_range (by omega) (by omega)

/-- A call with a size is within the buffer if and only if its offset is. -/
theorem call_within (hcap : (cap : Int) ≤ INT_MAX) :
    PrintCall.Within cap ⟨p.offset, some (p.left cap), text⟩ ↔ 0 ≤ p.offset ∧ p.offset ≤ cap := by
  constructor
  · intro h
    exact ⟨h.nonneg, h.le⟩
  · rintro ⟨h0, hle⟩
    have hleft := left_of_within hcap h0 hle
    have hcap' := hcap
    unfold INT_MAX at hcap'
    refine ⟨h0, hle, fun size hsize => ?_, ?_⟩
    · obtain rfl := Option.some.inj hsize
      rw [hleft]
      omega
    · show p.offset + (min (text.length + 1) (uint64 (p.left cap)) : Nat) ≤ cap
      rw [hleft, uint64_of_range (by omega) (by omega)]
      omega

theorem calls_snoc {c : PrintCall} (hp : p.Within cap) (hc : c.Within cap) : ∀ d ∈ p.calls ++ [c], d.Within cap :=
  List.forall_mem_append.mpr ⟨hp.calls, List.forall_mem_singleton.mpr hc⟩

/-- In the range of a sum the `int` does not wrap into the buffer. -/
theorem int32_within {x : Int} (hcap : (cap : Int) ≤ INT_MAX) (h1 : -1 ≤ x) (h2 : x ≤ cap + INT_MAX) :
    (0 ≤ int32 x ∧ int32 x ≤ cap) ↔ 0 ≤ x ∧ x ≤ cap := by
  unfold INT_MAX at hcap h2
  simp only [int32, Int.bmod]
  split <;> omega

/-- **One more call** stays within the buffer if and only if the calls so far did, and its end is in the buffer. -/
theorem within_snprintf (hcap : (cap : Int) ≤ INT_MAX) :
    (p.snprintf cap text).Within cap ↔ p.Within cap ∧ 0 ≤ p.offset + returned text ∧ p.offset + returned text ≤ cap := by
  have hret := returned_range text
  constructor
  · intro h
    obtain ⟨hcalls, hlast⟩ := List.forall_mem_append.mp h.calls
    obtain ⟨h0, hle⟩ := (call_within hcap).mp (List.forall_mem_singleton.mp hlast)
    exact ⟨⟨hcalls, h0, hle⟩, (int32_within hcap (by omega) (by omega)).mp ⟨h.nonneg, h.le⟩⟩
  · rintro ⟨hp, hend⟩
    have h0 := hp.nonneg
    have hle := hp.le
    obtain ⟨he0, heend⟩ := (int32_within hcap (by omega) (by omega)).mpr hend
    exact ⟨calls_snoc hp ((call_within hcap).mpr ⟨h0, hle⟩), he0, heend⟩

theorem offset_snprintf (hcap : (cap : Int) ≤ INT_MAX) (h : (p.snprintf cap text).Within cap) :
    (p.snprintf cap text).offset = p.offset + returned text := by
  obtain ⟨-, h0, hle⟩ := (within_snprintf hcap).mp h
  unfold INT_MAX at hcap
  exact int32_of_range (by omega) (by omega)

/-- A call of `sprintf` with a short text. -/
theorem within_sprintf (hcap : (cap : Int) ≤ INT_MAX) (hp : p.Within cap) (hlen : text.length < cap) :
    (p.sprintf text).Within cap ∧ (p.sprintf text).offset = text.length := by
  have hret : returned text = text.length := returned_of_le (by omega)
  have hoff : (p.sprintf text).offset = text.length := hret
  refine ⟨⟨calls_snoc hp ⟨Int.le_refl 0, Int.natCast_nonneg cap, fun _ h => absurd h (by simp), ?_⟩, by omega, by omega⟩,
    hoff⟩
  show (0 : Int) + (text.length + 1 : Nat) ≤ cap
  omega

/-- A call of `strftime` that finds room. -/
theorem within_strftime (hcap : (cap : Int) ≤ INT_MAX) (hp : p.Within cap) (hlen : p.offset + text.length < cap) :
    (p.strftime cap text).Within cap ∧ (p.strftime cap text).offset = p.offset + text.length := by
  have h0 := hp.nonneg
  have hleft := left_of_within hcap h0 hp.le
  have hroom : text.length < uint64 (p.left cap) := by
    have hcap' := hcap
    unfold INT_MAX at hcap'
    rw [hleft, uint64_of_range (by omega) (by omega)]
    omega
  have hoff : (p.strftime cap text).offset = p.offset + text.length := by
    show int32 (p.offset + ((if text.length < uint64 (p.left cap) then text.length else 0 : Nat) : Int)) = _
    rw [if_pos hroom]
    unfold INT_MAX at hcap
    exact int32_of_range (by omega) (by omega)
  exact ⟨⟨calls_snoc hp ((call_within hcap).mpr ⟨h0, hp.le⟩), by omega, by omega⟩, hoff⟩

/-! ## The contents -/

/-- The buffer begins with `pre`, and the next call continues behind it. -/
structure Filled (p : Print) (cap : Nat) (pre : List UInt8) : Prop where
  offset : p.offset = pre.length
  le : pre.length ≤ cap
  contents : ∃ buf, p.contents cap = some buf ∧ buf.length = cap ∧ buf.take pre.length = pre.map some

theorem start_filled : start.Filled cap [] :=
  ⟨rfl, Nat.zero_le cap, List.replicate cap none, rfl, List.length_replicate, rfl⟩

theorem contents_snoc {calls : List PrintCall} {o o' : Int} {c : PrintCall} {buf : List (Option UInt8)}
    (h : contents ⟨o, calls⟩ cap = some buf) : contents ⟨o', calls ++ [c]⟩ cap = c.run buf := by
  unfold contents at h ⊢
  rw [List.foldlM_append, h]
  exact bind_pure (c.run buf)

/-- A call that writes `bs` behind `pre`. -/
theorem contents_run {c : PrintCall} {o : Int} {pre : List UInt8} (h : p.Filled cap pre) (hc : c.offset = pre.length)
    (hle : pre.length + c.bytes.length ≤ cap) : ∃ buf, contents ⟨o, p.calls ++ [c]⟩ cap = some buf ∧ buf.length = cap ∧
      buf.take (pre.length + c.bytes.length) = (pre ++ c.bytes).map some := by
  obtain ⟨buf, hbuf, hlen, htake⟩ := h.contents
  have hroom : pre.length + (c.bytes.map some).length ≤ buf.length := by
    rw [List.length_map, hlen]
    exact hle
  obtain ⟨buf', hwrite⟩ := write_isSome hroom
  refine ⟨buf', ?_, (length_write hwrite).trans hlen, ?_⟩
  · rw [contents_snoc hbuf]
    unfold PrintCall.run
    rw [if_pos (by omega), hc, Int.toNat_natCast]
    exact hwrite
  · have htaken := take_write hwrite
    rw [List.length_map, htake] at htaken
    rw [htaken, List.map_append]

variable (text) in
/-- What a call with a size writes at the end of `pre`. -/
theorem bytes_left {pre : List UInt8} (hcap : (cap : Int) ≤ INT_MAX) (h : p.Filled cap pre) (hlt : pre.length < cap) :
    PrintCall.bytes ⟨p.offset, some (p.left cap), text⟩ = text.take (cap - pre.length - 1) ++ [0] := by
  have hoff := h.offset
  have hleft : p.left cap = cap - p.offset := left_of_within hcap (by omega) (by omega)
  have hsize : uint64 (p.left cap) = cap - pre.length := by
    have hcap' := hcap
    unfold INT_MAX at hcap'
    rw [hleft, hoff, uint64_of_range (by omega) (by omega)]
    omega
  unfold PrintCall.bytes
  dsimp only
  rw [hsize, if_neg (by omega)]

variable (text) in
/-- A call with a size at the end of `pre`: its text is cut to what is left. -/
theorem contents_cut {pre : List UInt8} {o : Int} (hcap : (cap : Int) ≤ INT_MAX) (h : p.Filled cap pre)
    (hlt : pre.length < cap) : ∃ buf, contents ⟨o, p.calls ++ [⟨p.offset, some (p.left cap), text⟩]⟩ cap = some buf ∧
      buf.length = cap ∧ buf.take (pre.length + (text.take (cap - pre.length - 1)).length + 1) =
        (pre ++ text.take (cap - pre.length - 1) ++ [0]).map some := by
  have hbytes := bytes_left text hcap h hlt
  have hblen := congrArg List.length hbytes
  rw [List.length_append, List.length_singleton] at hblen
  have hcut : (text.take (cap - pre.length - 1)).length ≤ cap - pre.length - 1 := List.length_take_le _ _
  have hle : pre.length + (PrintCall.bytes ⟨p.offset, some (p.left cap), text⟩).length ≤ cap := by omega
  obtain ⟨buf, hbuf, hlen, htake⟩ := contents_run (o := o) h h.offset hle
  refine ⟨buf, hbuf, hlen, ?_⟩
  rw [hblen, hbytes, ← List.append_assoc, ← Nat.add_assoc] at htake
  exact htake

/-- A text that fits with its null term is added to what the buffer begins with. -/
theorem filled_of_calls {pre : List UInt8} (hcap : (cap : Int) ≤ INT_MAX) (h : p.Filled cap pre)
    (hroom : pre.length + text.length < cap) :
    Filled ⟨(pre ++ text).length, p.calls ++ [⟨p.offset, some (p.left cap), text⟩]⟩ cap (pre ++ text) := by
  obtain ⟨buf, hbuf, hlen, htake⟩ := contents_cut (o := ((pre ++ text).length : Nat)) text hcap h (by omega)
  have hwhole : text.take (cap - pre.length - 1) = text := List.take_of_length_le (by omega)
  rw [hwhole] at htake
  refine ⟨rfl, by rw [List.length_append]; omega, buf, hbuf, hlen, ?_⟩
  have hpre := congrArg (List.take (pre.length + text.length)) htake
  rw [List.take_take, Nat.min_eq_left (by omega), List.map_append,
    List.take_left' (by rw [List.length_map, List.length_append])] at hpre
  rw [List.length_append]
  exact hpre

theorem filled_snprintf {pre : List UInt8} (hcap : (cap : Int) ≤ INT_MAX) (h : p.Filled cap pre)
    (hroom : pre.length + text.length < cap) : (p.snprintf cap text).Filled cap (pre ++ text) := by
  have hoff : int32 (p.offset + returned text) = (pre ++ text).length := by
    rw [h.offset, returned_of_le (by omega), List.length_append]
    unfold INT_MAX at hcap
    rw [int32_of_range (by omega) (by omega)]
    exact (Int.natCast_add _ _).symm
  have hfilled := filled_of_calls hcap h hroom
  rw [← hoff] at hfilled
  exact hfilled

theorem filled_strftime {pre : List UInt8} (hcap : (cap : Int) ≤ INT_MAX) (h : p.Filled cap pre)
    (hroom : pre.length + text.length < cap) : (p.strftime cap text).Filled cap (pre ++ text) := by
  have hoff := h.offset
  have hleft : p.left cap = cap - p.offset := left_of_within hcap (by omega) (by omega)
  have hfits : text.length < uint64 (p.left cap) := by
    have hcap' := hcap
    unfold INT_MAX at hcap'
    rw [hleft, hoff, uint64_of_range (by omega) (by omega)]
    omega
  have hend : int32 (p.offset + ((if text.length < uint64 (p.left cap) then text.length else 0 : Nat) : Int)) =
      (pre ++ text).length := by
    rw [if_pos hfits, hoff, List.length_append]
    unfold INT_MAX at hcap
    rw [int32_of_range (by omega) (by omega)]
    exact (Int.natCast_add _ _).symm
  have hfilled := filled_of_calls hcap h hroom
  rw [← hend] at hfilled
  exact hfilled

/-- `sprintf` starts again at the begin of the buffer. -/
theorem filled_sprintf {pre : List UInt8} (hcap : (cap : Int) ≤ INT_MAX) (h : p.Filled cap pre)
    (hroom : text.length < cap) : (p.sprintf text).Filled cap text := by
  obtain ⟨buf, hbuf, hlen, -⟩ := h.contents
  have hempty : Filled ⟨0, p.calls⟩ cap [] := ⟨rfl, Nat.zero_le cap, buf, hbuf, hlen, rfl⟩
  have hbytes : PrintCall.bytes ⟨0, none, text⟩ = text ++ [0] := rfl
  obtain ⟨buf', hbuf', hlen', htake⟩ := contents_run (c := ⟨0, none, text⟩) (o := returned text) hempty rfl
    (by rw [hbytes, List.length_append, List.length_singleton, List.length_nil]; omega)
  refine ⟨returned_of_le (by omega), Nat.le_of_lt hroom, buf', hbuf', hlen', ?_⟩
  rw [hbytes, List.nil_append, List.length_nil, Nat.zero_add] at htake
  have hpre := congrArg (List.take text.length) htake
  rw [List.take_take, Nat.min_eq_left (by rw [List.length_append]; omega), List.map_append,
    List.take_left' (List.length_map some)] at hpre
  exact hpre

end Print

end BeanRaft.Lib
