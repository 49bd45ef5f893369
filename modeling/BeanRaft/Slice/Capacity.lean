import BeanRaft.Slice.Failures

/-!
# BeanRaft.Slice.Capacity — reserve and shrinkToFit

`sdsRemoveFreeSpace`, `capacity`, `reserve` and `shrinkToFit`, and a transition system of them and the other members.
Both functions drop the pointer that the string function returns, so that an object whose string moves keeps the pointer
to its old block.  Whether a `realloc` moves the block is the choice of the allocator, in each call.

* `Promised`: what a call leaves behind.
* `CapOk`: the condition on a call; `capacity_iff`: it is exact.
-/

namespace BeanRaft.Slice

open CInt Lib Lts

/-! ## The code -/

namespace Mem

variable (m : Mem)

/-- A `realloc` that leaves the block where it is. -/
def extend (p : Ptr) (size : Nat) : Option (Mem × Option Ptr) :=
  match m.fails with
  | true :: fails => some (⟨m.heap, fails⟩, none)
  | fails => (Mem.modify ⟨m.heap, fails.tail⟩ p fun h => h.resize size).map (·, some p)

def s_realloc (stays : Bool) : Ptr → Nat → Option (Mem × Option Ptr) := if stays then m.extend else m.realloc

end Mem

/-- `sdsRemoveFreeSpace` (sds.cpp line 259) over the `s_realloc` of an allocator. -/
def sdsRemoveFreeSpaceWith (s_realloc : Mem → Ptr → Nat → Option (Mem × Option Ptr)) (m : Mem) (s : Ptr) :
    Option (Mem × Option Ptr) :=
  (m.heap.get s).bind fun h =>
    let type := sdsReqType h.len
    if h.type = type ∨ type ≠ .type5 ∧ type ≠ .type8 then
      -- the header stays as it is, also when a smaller one would do
      ifNotNull (s_realloc m s ((sdsHdrSize h.type + h.len + 1) % 2 ^ 64)) fun m s =>
        (m.modify s fun b => some (b.sdssetalloc h.len)).map (·, some s)
    else
      ifNotNull (m.malloc type ((sdsHdrSize type + h.len + 1) % 2 ^ 64)) fun m newsh =>
        (m.memcpy newsh 0 (.sds s 0) (h.len + 1)).bind fun m =>
        (m.sdsfree (some s)).bind fun m =>
        (m.modify newsh fun b => some ((b.sdssetlen h.len).sdssetalloc h.len)).map (·, some newsh)

/-- With a `realloc` that moves the block. -/
def sdsRemoveFreeSpace : Mem → Ptr → Option (Mem × Option Ptr) := sdsRemoveFreeSpaceWith Mem.realloc

namespace World

variable (w : World) (x : Nat)

/-- `capacity()` -/
def capacity : Nat := ((w.string x).map fun h => (h.len + h.sdsavail) % 2 ^ 64).getD 0

def reserve (stays : Bool) (new_size : UInt64) : Option World :=
  (w.initIfNeed x).bind fun w =>
    (w.call x false fun m p => sdsMakeRoomWith (Mem.s_realloc · stays) m p new_size.toNat).map Prod.fst

def shrinkToFit (stays : Bool) : Option World :=
  match w.data x with
  | none => some w
  | some _ => (w.call x false (sdsRemoveFreeSpaceWith (Mem.s_realloc · stays))).map Prod.fst

end World

/-! ## The system -/

/-- The members of the class; `stays` is whether a `realloc` in the call leaves the block where it is. -/
inductive CapAct
  | value (act : ValueAct)
  | reserve (x : Nat) (new_size : UInt64) (stays : Bool)
  | shrinkToFit (x : Nat) (stays : Bool)
  deriving DecidableEq, Repr

/-- No allocation is to fail. -/
def World.calm (w : World) : World := ⟨w.mem.calm, w.slices⟩

/-- The outcome of a call, as in `World.after`. -/
def World.afterCap (w : World) : CapAct → Option (Option World)
  | .value act => w.after act
  | .reserve x n stays => if x < w.slices.length then some (w.reserve x stays n) else none
  | .shrinkToFit x stays => if x < w.slices.length then some (w.shrinkToFit x stays) else none

/-- The objects, and the last call with the objects before it; or the call that was undefined. -/
inductive CapState
  | running (w : World) (last : Option (World × CapAct))
  | undefined (act : CapAct)

/-- Every allocation succeeds. -/
def CapState.step : CapState → CapAct → Option CapState
  | .undefined _, _ => none
  | .running w _, act => (w.calm.afterCap act).map fun
    | none => .undefined act
    | some w' => .running w' (some (w, act))

/-- The members of the class with `reserve` and `shrinkToFit`.  The strings are good at the start, whatever was done
before. -/
def capacities : System CapState CapAct where
  init s := ∃ w, w.mem.Healthy ∧ s = .running w none
  step := CapState.step

/-! ## The property and its condition -/

/-- An append of at most `n` bytes does not move the string. -/
def StaysPut (w : World) (x n : Nat) : Prop :=
  ∀ a bs w' r, a.appended w = some bs → bs.length ≤ n → w.append x a = some (w', some r) → r = w.data x

/-- What `reserve` and `shrinkToFit` leave behind: the bytes in a live string, and the capacity.  When a size is not
representable, `reserve` is to do nothing. -/
def Promised (w0 w : World) : CapAct → Prop
  | .value _ => True
  | .reserve x n _ =>
    w.Holds x (w0.held x) ∧
      (Roomy (w0.size x) n.toNat → w.size x + n.toNat ≤ w.capacity x ∧ StaysPut w x n.toNat) ∧
      (¬ Roomy (w0.size x) n.toNat → w.data x = w0.data x ∧ w.capacity x = w0.capacity x)
  | .shrinkToFit x _ =>
    (w0.data x = none ∧ w.data x = none ∨ w.Holds x (w0.held x)) ∧ w.capacity x = w.size x

/-- A call of `reserve` or `shrinkToFit` returns and has kept its promise. -/
def CapKept : CapState → Prop
  | .undefined act => ∃ value, act = .value value
  | .running w last => ∀ w0 act, last = some (w0, act) → Promised w0 w act

/-- The string that an object has after `_initIfNeed`. -/
def World.ready (w : World) (x : Nat) : Option Sdshdr :=
  match w.data x with
  | none => some ⟨.type8, 0, 0, [some 0]⟩
  | some p => w.mem.heap.get p

/-- There is room already, or the string has the header for its new size and the allocator leaves the block where it is.
When a size is not representable, the header must say what it said before. -/
def ReserveOk (w : World) (x n : Nat) (stays : Bool) : Prop :=
  match w.ready x with
  | none => False
  | some h => n ≤ h.sdsavail ∨ stays = true ∧ h.type = roomType (roomLen h.len n) ∧
      (Roomy h.len n ∨ w.data x ≠ none ∧ h.alloc = roomLen h.len n ∧ sdsHdrSize h.type + h.alloc + 1 < 2 ^ 64)

/-- There is no string to shrink, or it keeps its header and the allocator leaves the block where it is. -/
def ShrinkOk (w : World) (x : Nat) (stays : Bool) : Prop :=
  w.data x = none ∨ ∃ h ∈ w.string x, stays = true ∧
    (h.type = sdsReqType h.len ∨ sdsReqType h.len ≠ .type5 ∧ sdsReqType h.len ≠ .type8) ∧
    sdsHdrSize h.type + h.len + 1 < 2 ^ 64

def CapOk : CapState → CapAct → Prop
  | .running w _, .reserve x n stays => ReserveOk w x n.toNat stays
  | .running w _, .shrinkToFit x stays => ShrinkOk w x stays
  | _, _ => True

instance (w : World) (x n : Nat) (stays : Bool) : Decidable (ReserveOk w x n stays) := by
  unfold ReserveOk
  cases w.ready x <;> infer_instance

instance (w : World) (x : Nat) (stays : Bool) : Decidable (ShrinkOk w x stays) := by
  unfold ShrinkOk
  infer_instance

instance : ∀ (s : CapState) (act : CapAct), Decidable (CapOk s act)
  | .running w _, .reserve x n stays => inferInstanceAs (Decidable (ReserveOk w x n.toNat stays))
  | .running w _, .shrinkToFit x stays => inferInstanceAs (Decidable (ShrinkOk w x stays))
  | .running _ _, .value _ => isTrue trivial
  | .undefined _, .value _ | .undefined _, .reserve _ _ _ | .undefined _, .shrinkToFit _ _ => isTrue trivial

/-! ## A block that is resized where it is -/

section Resize

variable {m m' : Mem} {p : Ptr} {r : Option Ptr} {h b : Sdshdr} {n k size : Nat}

/-- The block is resized, and its header gets the new size. -/
theorem extend_eq (hf : m.fails = []) (hg : m.heap.get p = some h) :
    (ifNotNull (m.extend p size) fun m s => (m.modify s fun b => some (b.sdssetalloc k)).map (·, some s)) =
      (h.resize size).map fun b => (⟨m.heap.put p (some (b.sdssetalloc k)), []⟩, some p) := by
  have hput : ∀ o o', (m.heap.put p o).put p o' = m.heap.put p o' := by
    intro o o'
    simp [Heap.put]
  have hextend : m.extend p size = (h.resize size).map fun b => (⟨m.heap.put p (some b), []⟩, some p) := by
    simp [Mem.extend, hf, Mem.modify, Heap.modify_of_get hg, Function.comp_def]
  rw [hextend]
  cases h.resize size with
  | none => rfl
  | some b =>
    have hgb : (m.heap.put p (some b)).get p = some b := by
      rw [Heap.get_put (Heap.lt_next hg), Function.update_self]
    simp [ifNotNull, Mem.modify, Heap.modify_of_get hgb, hput]

/-- The new size is that of the string and the room behind it, and does not wrap: the string stays good. -/
theorem resize_good (hs : Sound h) (hlen : h.len ≤ k) (hk : k < 2 ^ h.type.bits) (h5 : h.type = .type5 → k = h.len)
    (hb : h.resize (sdsHdrSize h.type + k + 1) = some b) :
    Sound (b.sdssetalloc k) ∧ (b.sdssetalloc k).len = h.len ∧ (b.sdssetalloc k).sdsavail = k - h.len ∧
      (b.sdssetalloc k).buf.take (h.len + 1) = h.buf.take (h.len + 1) := by
  obtain ⟨htype, hblen, -, hsize, htake⟩ := resize_some hb
  have hroom := hs.room
  have hbuf : b.buf.length = k + 1 := by omega
  have htext := htake (h.len + 1) (by omega) (by omega)
  by_cases ht : h.type = .type5
  · have hsame : b.sdssetalloc k = b := by
      unfold Sdshdr.sdssetalloc
      rw [htype, ht]
    have havail : b.sdsavail = 0 := sdsavail_type5 (htype.trans ht)
    have hk5 := h5 ht
    rw [hsame]
    refine ⟨⟨?_, fun hne => absurd (htype.trans ht) hne, fun hne => absurd (htype.trans ht) hne, ?_⟩, hblen, ?_, htext⟩
    · rw [hblen, htype]
      exact hs.len_lt
    · omega
    · omega
  · have hbt : b.type ≠ .type5 := htype ▸ ht
    have hkb : k < 2 ^ b.type.bits := by rwa [htype]
    rw [sdssetalloc_eq hbt hkb]
    have havail : Sdshdr.sdsavail { b with alloc := k } = k - b.len :=
      sdsavail_eq (h := { b with alloc := k }) hbt (by rw [hblen]; exact hlen) hkb
    refine ⟨⟨?_, fun _ => by rw [hblen]; exact hlen, fun _ => hkb, ?_⟩, hblen, by rw [havail, hblen], htext⟩
    · show b.len < 2 ^ b.type.bits
      rw [hblen, htype]
      exact hs.len_lt
    · rw [havail]
      show b.len + (k - b.len) < b.buf.length
      omega

/-- When the new size wraps, no byte is left. -/
theorem resize_wraps (hk : k < 2 ^ 64) (hwrap : ¬ sdsHdrSize h.type + k + 1 < 2 ^ 64)
    (hb : h.resize ((sdsHdrSize h.type + k + 1) % 2 ^ 64) = some b) : (b.sdssetalloc k).buf = [] := by
  obtain ⟨-, -, -, hsize, -⟩ := resize_some hb
  have hhdr := sdsHdrSize_le h.type
  have hnil : b.buf = [] := List.eq_nil_of_length_eq_zero (by omega)
  have hbuf : (b.sdssetalloc k).buf = b.buf := by
    unfold Sdshdr.sdssetalloc
    split <;> rfl
  rw [hbuf, hnil]

/-- The capacity says which size the header holds, also when it is less than the length. -/
theorem alloc_of_capacity (ht : h.type ≠ .type5) (hs : h.len < 2 ^ h.type.bits) (hk : k < 2 ^ h.type.bits)
    (hn : n < 2 ^ h.type.bits) (halloc : h.alloc = k) (hcap : (h.len + h.sdsavail) % 2 ^ 64 = n) : k = n := by
  unfold Sdshdr.sdsavail uint32 uint64 at hcap
  rw [halloc] at hcap
  cases htype : h.type with
  | type5 => exact absurd htype ht
  | type32 =>
    rw [htype] at hs hk hn hcap
    have hs32 : h.len < 2 ^ 32 := hs
    have hk32 : k < 2 ^ 32 := hk
    have hn32 : n < 2 ^ 32 := hn
    dsimp only at hcap
    omega
  | type8 | type16 | type64 =>
    rw [htype] at hs hk hn hcap
    dsimp only [SdsType.bits] at hs hk hn hcap
    omega

end Resize

/-! ## The string functions -/

section Functions

variable {f : Mem → Ptr → Nat → Option (Mem × Option Ptr)} {m m' : Mem} {p : Ptr} {r : Option Ptr} {h : Sdshdr} {n : Nat}
  {stays : Bool}

theorem makeRoomWith_stay (hg : m.heap.get p = some h) (hn : n ≤ h.sdsavail) :
    sdsMakeRoomWith f m p n = some (m, some p) := by
  unfold sdsMakeRoomWith
  rw [hg, Option.bind_some]
  exact if_pos hn

/-- The header is large enough for the new size. -/
theorem makeRoomWith_extend (hf : m.fails = []) (hg : m.heap.get p = some h) (hn : ¬ n ≤ h.sdsavail)
    (htype : h.type = roomType (roomLen h.len n)) : sdsMakeRoomWith Mem.extend m p n =
      (h.resize ((sdsHdrSize h.type + roomLen h.len n + 1) % 2 ^ 64)).map fun b =>
        (⟨m.heap.put p (some (b.sdssetalloc (roomLen h.len n))), []⟩, some p) := by
  unfold sdsMakeRoomWith
  rw [hg, Option.bind_some]
  dsimp only
  rw [if_neg hn, if_pos htype, ← htype]
  exact extend_eq hf hg

/-- Otherwise the string moves, whatever the allocator does. -/
theorem makeRoomWith_dead (hf : m.fails = []) (hg : m.heap.get p = some h) (hl : h.len < 2 ^ h.type.bits)
    (hn : ¬ n ≤ h.sdsavail) (hmove : ¬ (stays = true ∧ h.type = roomType (roomLen h.len n)))
    (hr : sdsMakeRoomWith (Mem.s_realloc · stays) m p n = some (m', r)) : m'.heap.get p = none := by
  have hsame : sdsMakeRoomWith (Mem.s_realloc · stays) m p n = sdsMakeRoomFor m p n := by
    cases stays with
    | false => rfl
    | true =>
      have htype : h.type ≠ roomType (roomLen h.len n) := fun ht => hmove ⟨rfl, ht⟩
      unfold sdsMakeRoomFor sdsMakeRoomWith
      rw [hg, Option.bind_some, Option.bind_some]
      dsimp only
      rw [if_neg hn, if_neg hn, if_neg htype, if_neg htype]
  rw [hsame] at hr
  rcases makeRoom_cases hf hg hl hr with ⟨hle, -, -⟩ | ⟨-, q, b, -, hq, -, hmv, -⟩
  · exact absurd hle hn
  · refine hmv.dead ?_
    rintro rfl
    rw [hg] at hq
    cases hq

theorem removeFreeSpaceWith_extend (hf : m.fails = []) (hg : m.heap.get p = some h)
    (htype : h.type = sdsReqType h.len ∨ sdsReqType h.len ≠ .type5 ∧ sdsReqType h.len ≠ .type8) :
    sdsRemoveFreeSpaceWith Mem.extend m p = (h.resize ((sdsHdrSize h.type + h.len + 1) % 2 ^ 64)).map fun b =>
      (⟨m.heap.put p (some (b.sdssetalloc h.len)), []⟩, some p) := by
  unfold sdsRemoveFreeSpaceWith
  rw [hg, Option.bind_some]
  dsimp only
  rw [if_pos htype]
  exact extend_eq hf hg

theorem removeFreeSpaceWith_dead (hf : m.fails = []) (hg : m.heap.get p = some h)
    (hmove : ¬ (stays = true ∧ (h.type = sdsReqType h.len ∨ sdsReqType h.len ≠ .type5 ∧ sdsReqType h.len ≠ .type8)))
    (hr : sdsRemoveFreeSpaceWith (Mem.s_realloc · stays) m p = some (m', r)) : m'.heap.get p = none := by
  have hne : m.heap.next ≠ p := Ne.symm (Heap.ne_next hg)
  unfold sdsRemoveFreeSpaceWith at hr
  rw [hg, Option.bind_some] at hr
  dsimp only at hr
  split_ifs at hr with htype
  · have hstays : stays = false := Bool.eq_false_iff.mpr fun h => hmove ⟨h, htype⟩
    subst hstays
    obtain ⟨m1, o, h1, ho⟩ := ifNotNull_inv hr
    obtain ⟨b, -, rfl, -, hmv⟩ := realloc_some hf hg h1
    obtain ⟨q, hq, hk⟩ := ho.resolve_left fun hnull => Option.some_ne_none _ hnull.1
    obtain rfl := Option.some.inj hq
    obtain ⟨m2, hm, he⟩ := Option.map_eq_some_iff.mp hk
    obtain ⟨b2, -, -, hget⟩ := modify_get hmv.get_self hm
    cases he
    exact (hmv.comp (.stay hget)).dead hne
  · obtain ⟨m1, h1, hk⟩ := ifNotNull_malloc hf hr
    obtain ⟨m2, hcpy, hk⟩ := Option.bind_eq_some_iff.mp hk
    obtain ⟨m3, hfree, hk⟩ := Option.bind_eq_some_iff.mp hk
    obtain ⟨m4, hmod, he⟩ := Option.map_eq_some_iff.mp hk
    obtain ⟨-, -, b, hmv, -⟩ := copy_some hf hg (Nat.succ_pos _) h1 hcpy hfree
    obtain ⟨b2, -, -, hget⟩ := modify_get hmv.get_self hmod
    cases he
    exact (hmv.comp (.stay hget)).dead hne

end Functions

/-! ## The objects -/

section Objects

variable {w w' w1 : World} {x k : Nat} {p : Ptr} {h b : Sdshdr} {n : UInt64} {stays : Bool} {a : Arg} {bs : List Byte}
  {t : Src}

theorem init_ready (hf : w.mem.fails = []) (hx : x < w.slices.length) :
    ∃ w1 p, w.initIfNeed x = some w1 ∧ w1.data x = some p ∧ w1.mem.heap.get p = w.ready x ∧ w1.mem.fails = [] ∧
      (w.data x ≠ none → w1 = w) := by
  unfold World.initIfNeed World.ready
  cases hd : w.data x with
  | some p => exact ⟨w, p, rfl, hd, rfl, hf, fun _ => rfl⟩
  | none =>
    obtain ⟨m', q, he, -, hf', hget⟩ := sdsempty_isSome hf
    refine ⟨⟨m', w.slices.set x (some q)⟩, q, by simp only [he]; rfl, ?_, ?_, hf', fun h => absurd rfl h⟩
    · rw [data_set hx, Function.update_self]
    · show m'.heap.get q = _
      rw [hget, Function.update_self]

theorem ready_of_data (hd : w.data x = some p) : w.ready x = w.mem.heap.get p := by
  unfold World.ready
  rw [hd]

/-- A string of its own, or the empty one that it is to get. -/
theorem ready_cases (hr : w.ready x = some h) :
    w.string x = some h ∨ w.data x = none ∧ h = ⟨.type8, 0, 0, [some 0]⟩ := by
  cases hd : w.data x with
  | some p =>
    rw [ready_of_data hd] at hr
    exact .inl ((string_of_data hd).trans hr)
  | none =>
    unfold World.ready at hr
    rw [hd] at hr
    exact .inr ⟨rfl, (Option.some.inj hr).symm⟩

theorem ready_good (hm : w.mem.Healthy) (hr : w.ready x = some h) : Sound h ∧ Terminated h := by
  rcases ready_cases hr with hstr | ⟨-, rfl⟩
  · obtain ⟨p, -, hg⟩ := Option.bind_eq_some_iff.mp hstr
    exact hm p h hg
  · exact ⟨⟨by decide, fun _ => by decide, fun _ => by decide, by decide⟩, rfl⟩

theorem ready_held (hr : w.ready x = some h) : w.held x = h.buf.take h.len := by
  rcases ready_cases hr with hstr | ⟨hd, rfl⟩
  · exact held_of_string hstr
  · exact held_of_none hd

theorem ready_size (hr : w.ready x = some h) : w.size x = h.len := by
  rcases ready_cases hr with hstr | ⟨hd, rfl⟩
  · exact size_of_string hstr
  · simp [World.size, string_of_none hd]

theorem capacity_of_string (hx : w.string x = some h) : w.capacity x = (h.len + h.sdsavail) % 2 ^ 64 := by
  simp [World.capacity, hx]

theorem ready_capacity (hr : w.ready x = some h) : w.capacity x = (h.len + h.sdsavail) % 2 ^ 64 := by
  rcases ready_cases hr with hstr | ⟨hd, rfl⟩
  · exact capacity_of_string hstr
  · simp only [World.capacity, string_of_none hd]
    decide

/-- The capacity is a size. -/
theorem Sound.capacity_lt (hs : Sound h) : h.len + h.sdsavail < 2 ^ 64 := by
  by_cases ht : h.type = .type5
  · rw [sdsavail_type5 ht]
    have hlen := hs.len_lt
    rw [ht] at hlen
    exact Nat.lt_trans hlen (by decide)
  · have hle := hs.len_le ht
    have halloc := hs.alloc_lt ht
    rw [sdsavail_eq ht hle halloc, Nat.add_sub_cancel' hle]
    exact Nat.lt_of_lt_of_le halloc (Nat.pow_le_pow_right (by decide) (by cases h.type <;> decide))

/-! ### What a call leaves behind -/

/-- The text of `h` is in the string `b` now. -/
theorem holds_of_take (hs : Sound h) (ht : Terminated h) (hx : w.string x = some b) (hlen : b.len = h.len)
    (htake : b.buf.take (h.len + 1) = h.buf.take (h.len + 1)) : w.Holds x (h.buf.take h.len) := by
  have hroom := hs.room
  have hl : (h.buf.take h.len).length = h.len := by
    rw [List.length_take]
    omega
  unfold World.Holds
  rw [hx]
  dsimp only
  rw [hl]
  refine ⟨hlen, ?_⟩
  rw [htake, List.take_add_one, ht]
  rfl

theorem not_holds_of_nil (hx : w.string x = some b) (hb : b.buf = []) : ¬ w.Holds x bs := by
  unfold World.Holds
  rw [hx]
  rintro ⟨-, htext⟩
  rw [hb, List.take_nil] at htext
  simp at htext

/-- The number of bytes that an overload of `append` passes is that of the bytes it appends. -/
theorem text_length (hm : w.mem.Healthy) (hb : a.appended w = some bs) (ht : a.text w = some (t, k)) : k = bs.length := by
  cases a with
  | slice s =>
    obtain ⟨q, hq, ht⟩ := Option.bind_eq_some_iff.mp ht
    obtain ⟨b, hg, he⟩ := Option.map_eq_some_iff.mp ht
    cases he
    unfold Arg.appended at hb
    dsimp only at hb
    split_ifs at hb
    obtain rfl := Option.some.inj hb
    have hroom := (hm q b hg).1.room
    rw [held_of_string (by rw [string_of_data hq, hg]), List.length_take]
    omega
  | str s =>
    cases ht
    obtain rfl := Option.some.inj hb
    exact (List.length_map _).symm
  | cstr s =>
    obtain ⟨l, hl, hread⟩ := Option.bind_eq_some_iff.mp hb
    obtain ⟨l', hl', he⟩ := Option.map_eq_some_iff.mp ht
    cases he
    obtain rfl := Option.some.inj (hl.symm.trans hl')
    exact (Src.read_length hread).symm
  | bytes s len =>
    cases ht
    unfold Arg.appended at hb
    dsimp only at hb
    split_ifs at hb with hpos
    have hlt := len.toInt_lt
    rw [Src.read_length hb, uint64_of_range hpos (by omega)]
  | chr s =>
    cases ht
    obtain rfl := Option.some.inj hb
    rfl
  | num number =>
    have h20 := decimal_int64_length number
    have hroom : (decimal number.toInt).length < (List.replicate 64 (none : Byte)).length := by
      rw [List.length_replicate]
      omega
    have hll := ll2string_eq hroom
    rw [List.length_replicate] at hll
    obtain ⟨⟨buffer, l⟩, hl, he⟩ := Option.map_eq_some_iff.mp ht
    cases he
    obtain rfl := Option.some.inj hb
    rw [hll] at hl
    cases hl
    exact (List.length_map _).symm

/-- There is room already. -/
theorem staysPut (hm : w.mem.Healthy) (hd : w.data x = some p) (hg : w.mem.heap.get p = some h) (hk : k ≤ h.sdsavail) :
    StaysPut w x k := by
  intro a bs w' r hb hle hr
  by_cases hnull : a.isNull w = true
  · rw [(append_null (x := x) hnull hb).1] at hr
    cases hr
  · -- the object has a string, so `_initIfNeed` does nothing
    have hinit : w.initIfNeed x = some w := by
      unfold World.initIfNeed
      rw [hd]
    rw [append_eq (Bool.eq_false_iff.mpr hnull), hinit, Option.bind_some] at hr
    obtain ⟨⟨t, l⟩, htext, hr⟩ := Option.bind_eq_some_iff.mp hr
    obtain rfl := text_length hm hb htext
    rw [call_eq hd] at hr
    obtain ⟨⟨w2, r2⟩, hcall, he⟩ := Option.map_eq_some_iff.mp hr
    obtain ⟨⟨m2, r3⟩, hcat, he'⟩ := Option.map_eq_some_iff.mp hcall
    cases he
    cases he'
    unfold sdscatlen at hcat
    rw [hg, Option.bind_some, ifNotNull_some (makeRoom_stay hg (Nat.le_trans hle hk))] at hcat
    obtain ⟨m3, -, hcat⟩ := Option.bind_eq_some_iff.mp hcat
    obtain ⟨m4, -, hcat⟩ := Option.map_eq_some_iff.mp hcat
    cases hcat
    exact hd.symm

/-- The string is where it was, with its text, and there is room, or the capacity is the old one. -/
theorem promised_reserve (hm : w.mem.Healthy) (hm' : w'.mem.Healthy) (hr : w.ready x = some h) (hd : w'.data x = some p)
    (hg : w'.mem.heap.get p = some b) (hlen : b.len = h.len) (htake : b.buf.take (h.len + 1) = h.buf.take (h.len + 1))
    (hroomy : Roomy h.len n.toNat → n.toNat ≤ b.sdsavail)
    (hlarge : ¬ Roomy h.len n.toNat → w'.data x = w.data x ∧ b.sdsavail = h.sdsavail) :
    Promised w w' (.reserve x n stays) := by
  obtain ⟨hs, ht⟩ := ready_good hm hr
  have hb := (hm' p b hg).1
  have hstr : w'.string x = some b := by rw [string_of_data hd, hg]
  have hcap : w'.capacity x = b.len + b.sdsavail := by
    rw [capacity_of_string hstr, Nat.mod_eq_of_lt hb.capacity_lt]
  refine ⟨?_, fun h0 => ⟨?_, ?_⟩, fun h0 => ⟨?_, ?_⟩⟩
  · rw [ready_held hr]
    exact holds_of_take hs ht hstr hlen htake
  · rw [ready_size hr] at h0
    have havail := hroomy h0
    rw [hcap, size_of_string hstr]
    omega
  · rw [ready_size hr] at h0
    exact staysPut hm' hd hg (hroomy h0)
  · rw [ready_size hr] at h0
    exact (hlarge h0).1
  · rw [ready_size hr] at h0
    rw [hcap, ready_capacity hr, Nat.mod_eq_of_lt hs.capacity_lt, hlen, (hlarge h0).2]

/-- The object with its block changed where it is. -/
def World.changed (w : World) (p : Ptr) (b : Sdshdr) : World := ⟨⟨w.mem.heap.put p (some b), []⟩, w.slices⟩

theorem get_changed (hg : w.mem.heap.get p = some h) : (w.changed p b).mem.heap.get p = some b := by
  show (w.mem.heap.put p (some b)).get p = some b
  rw [Heap.get_put (Heap.lt_next hg), Function.update_self]

theorem healthy_changed (hm : w.mem.Healthy) (hg : w.mem.heap.get p = some h) (hb : Sound b ∧ Terminated b) :
    (w.changed p b).mem.Healthy := hm.update (Heap.get_put (Heap.lt_next hg)) hb

theorem terminated_of_eq (ht : Terminated h) (hlen : b.len = h.len)
    (htake : b.buf.take (h.len + 1) = h.buf.take (h.len + 1)) : Terminated b := by
  have hget := congrArg (fun l => l[h.len]?) htake
  simp only [List.getElem?_take, Nat.lt_succ_self, if_true] at hget
  unfold Terminated
  rw [hlen, hget]
  exact ht

/-! ### reserve -/

theorem reserve_eq (hinit : w.initIfNeed x = some w1) (hd : w1.data x = some p) : w.reserve x stays n =
    (sdsMakeRoomWith (Mem.s_realloc · stays) w1.mem p n.toNat).map fun (m, _) => ⟨m, w1.slices⟩ := by
  unfold World.reserve
  rw [hinit, Option.bind_some, call_eq hd, Option.map_map]
  rfl

theorem reserve_extend (hinit : w.initIfNeed x = some w1) (hd : w1.data x = some p) (hf : w1.mem.fails = [])
    (hg : w1.mem.heap.get p = some h) (hn : ¬ n.toNat ≤ h.sdsavail)
    (htype : h.type = roomType (roomLen h.len n.toNat)) : w.reserve x true n =
      (h.resize ((sdsHdrSize h.type + roomLen h.len n.toNat + 1) % 2 ^ 64)).map fun b =>
        w1.changed p (b.sdssetalloc (roomLen h.len n.toNat)) := by
  rw [reserve_eq hinit hd, show sdsMakeRoomWith (Mem.s_realloc · true) w1.mem p n.toNat = _ from
    makeRoomWith_extend hf hg hn htype, Option.map_map]
  rfl

/-- `reserve` where there is room, or where the block can grow. -/
theorem reserve_ok (hm : w.mem.Healthy) (hf : w.mem.fails = []) (hx : x < w.slices.length)
    (hok : ReserveOk w x n.toNat stays) :
    ∃ w', w.reserve x stays n = some w' ∧ w'.mem.Healthy ∧ Promised w w' (.reserve x n stays) := by
  obtain ⟨w1, p, hinit, hd, hg, hf1, hsame⟩ := init_ready hf hx
  have hm1 := healthy_init hm hinit
  unfold ReserveOk at hok
  cases hr : w.ready x with
  | none =>
    rw [hr] at hok
    exact hok.elim
  | some h =>
    rw [hr] at hok hg
    obtain ⟨hs, ht⟩ := ready_good hm hr
    by_cases hn : n.toNat ≤ h.sdsavail
    · refine ⟨w1, ?_, hm1, promised_reserve hm hm1 hr hd hg rfl rfl (fun _ => hn) fun h0 => ⟨?_, rfl⟩⟩
      · rw [reserve_eq hinit hd, makeRoomWith_stay hg hn]
        rfl
      · -- a size that is not representable is not 0, so the object had a string
        rcases ready_cases hr with hstr | ⟨-, rfl⟩
        · obtain ⟨q, hq, -⟩ := Option.bind_eq_some_iff.mp hstr
          rw [hsame (by rw [hq]; exact Option.some_ne_none q)]
        · have hzero : n.toNat = 0 := Nat.le_zero.mp hn
          rw [hzero] at h0
          exact absurd (by decide) h0
    · obtain ⟨rfl, htype, hsize⟩ := hok.resolve_left hn
      have h5 : h.type ≠ .type5 := htype ▸ roomType_ne _
      have hlt : roomLen h.len n.toNat < 2 ^ h.type.bits := htype ▸ roomType_lt (roomLen_lt _ _)
      have halloc := hs.len_le h5
      -- the new size has room for the string, and does not wrap
      have hfit : h.len ≤ roomLen h.len n.toNat ∧ sdsHdrSize h.type + roomLen h.len n.toNat + 1 < 2 ^ 64 := by
        rcases hsize with hroomy | ⟨-, heq, hwrap⟩
        · have hbig := hroomy.roomLen
          have hhdr := sdsHdrSize_le h.type
          exact ⟨by omega, by omega⟩
        · rw [← heq]
          exact ⟨halloc, hwrap⟩
      obtain ⟨b, hb⟩ : ∃ b, h.resize (sdsHdrSize h.type + roomLen h.len n.toNat + 1) = some b :=
        resize_isSome (by omega)
      obtain ⟨hbs, hblen, havail, htake⟩ := resize_good hs hfit.1 hlt (fun h => absurd h h5) hb
      have hbt : Terminated (b.sdssetalloc (roomLen h.len n.toNat)) := terminated_of_eq ht hblen htake
      have hm' := healthy_changed hm1 hg ⟨hbs, hbt⟩
      refine ⟨w1.changed p (b.sdssetalloc (roomLen h.len n.toNat)), ?_, hm',
        promised_reserve hm hm' hr hd (get_changed hg) hblen htake (fun h0 => ?_) fun h0 => ?_⟩
      · rw [reserve_extend hinit hd hf1 hg hn htype, Nat.mod_eq_of_lt hfit.2, hb]
        rfl
      · have hbig := h0.roomLen.1
        omega
      · obtain ⟨hdata, heq, -⟩ := hsize.resolve_left h0
        refine ⟨by rw [← hsame hdata]; rfl, ?_⟩
        rw [havail, ← heq, sdsavail_eq h5 halloc (hs.alloc_lt h5)]

/-- `reserve` where the string moves, or where the new size is not representable and the header says so. -/
theorem reserve_bad (hm : w.mem.Healthy) (hf : w.mem.fails = []) (hx : x < w.slices.length)
    (hno : ¬ ReserveOk w x n.toNat stays) (hr : w.reserve x stays n = some w') :
    ¬ Promised w w' (.reserve x n stays) := by
  obtain ⟨w1, p, hinit, hd, hg, hf1, hsame⟩ := init_ready hf hx
  rw [reserve_eq hinit hd] at hr
  unfold ReserveOk at hno
  cases hready : w.ready x with
  | none =>
    -- the pointer is dead
    unfold sdsMakeRoomWith at hr
    rw [hg, hready] at hr
    cases hr
  | some h =>
    rw [hready] at hno hg
    obtain ⟨hn, hno⟩ := not_or.mp hno
    obtain ⟨hs, -⟩ := ready_good hm hready
    by_cases hmove : stays = true ∧ h.type = roomType (roomLen h.len n.toNat)
    · obtain ⟨rfl, htype⟩ := hmove
      obtain ⟨hroomy, hlost⟩ := not_or.mp fun h => hno ⟨rfl, htype, h⟩
      have h5 : h.type ≠ .type5 := htype ▸ roomType_ne _
      have hlt : roomLen h.len n.toNat < 2 ^ h.type.bits := htype ▸ roomType_lt (roomLen_lt _ _)
      rw [← reserve_eq hinit hd, reserve_extend hinit hd hf1 hg hn htype] at hr
      obtain ⟨b, hb, rfl⟩ := Option.map_eq_some_iff.mp hr
      obtain ⟨hbtype, hblen, -, -, -⟩ := resize_some hb
      have hstr : (w1.changed p (b.sdssetalloc (roomLen h.len n.toNat))).string x =
          some (b.sdssetalloc (roomLen h.len n.toNat)) := by
        rw [string_of_data (show World.data (w1.changed p _) x = some p from hd), get_changed hg]
      rintro ⟨hholds, -, hkept⟩
      obtain ⟨hdata, hcap⟩ := hkept (by rwa [ready_size hready])
      have hset := sdssetalloc_eq (h := b) (hbtype ▸ h5) (hbtype ▸ hlt)
      -- the capacity is the old one, so the header says what it said
      have halloc : roomLen h.len n.toNat = h.alloc := by
        rw [capacity_of_string hstr, ready_capacity hready, Nat.mod_eq_of_lt hs.capacity_lt,
          sdsavail_eq h5 (hs.len_le h5) (hs.alloc_lt h5), Nat.add_sub_cancel' (hs.len_le h5), hset] at hcap
        refine alloc_of_capacity (h := { b with alloc := roomLen h.len n.toNat }) (hbtype ▸ h5) ?_ ?_ ?_ rfl hcap
        · show b.len < 2 ^ b.type.bits
          rw [hblen, hbtype]
          exact hs.len_lt
        · exact hbtype ▸ hlt
        · exact hbtype ▸ hs.alloc_lt h5
      have hsome : w.data x ≠ none := by
        rw [← hdata]
        exact fun h => Option.some_ne_none p (hd.symm.trans h)
      refine not_holds_of_nil hstr (resize_wraps (roomLen_lt _ _) (fun hwrap => hlost ⟨hsome, halloc.symm, ?_⟩) hb) hholds
      rwa [← halloc]
    · obtain ⟨⟨m, r⟩, hroom, rfl⟩ := Option.map_eq_some_iff.mp hr
      have hdead := makeRoomWith_dead hf1 hg hs.len_lt hn hmove hroom
      have hlost : Lost ⟨m, w1.slices⟩ x := ⟨p, hd, hdead⟩
      exact fun hp => hlost.not_holds _ hp.1

/-! ### shrinkToFit -/

theorem shrinkToFit_eq (hd : w.data x = some p) : w.shrinkToFit x stays =
    (sdsRemoveFreeSpaceWith (Mem.s_realloc · stays) w.mem p).map fun (m, _) => ⟨m, w.slices⟩ := by
  unfold World.shrinkToFit
  rw [hd]
  dsimp only
  rw [call_eq hd, Option.map_map]
  rfl

theorem shrinkToFit_extend (hd : w.data x = some p) (hf : w.mem.fails = []) (hg : w.mem.heap.get p = some h)
    (htype : h.type = sdsReqType h.len ∨ sdsReqType h.len ≠ .type5 ∧ sdsReqType h.len ≠ .type8) :
    w.shrinkToFit x true = (h.resize ((sdsHdrSize h.type + h.len + 1) % 2 ^ 64)).map fun b =>
      w.changed p (b.sdssetalloc h.len) := by
  rw [shrinkToFit_eq hd, show sdsRemoveFreeSpaceWith (Mem.s_realloc · true) w.mem p = _ from
    removeFreeSpaceWith_extend hf hg htype, Option.map_map]
  rfl

theorem shrinkToFit_ok (hm : w.mem.Healthy) (hf : w.mem.fails = []) (hok : ShrinkOk w x stays) :
    ∃ w', w.shrinkToFit x stays = some w' ∧ w'.mem.Healthy ∧ Promised w w' (.shrinkToFit x stays) := by
  cases hd : w.data x with
  | none =>
    refine ⟨w, ?_, hm, .inl ⟨hd, hd⟩, ?_⟩
    · unfold World.shrinkToFit
      rw [hd]
    · simp [World.capacity, World.size, string_of_none hd]
  | some p =>
    have hok := hok.resolve_left (by rw [hd]; exact Option.some_ne_none p)
    cases hg : w.mem.heap.get p with
    | none =>
      rw [string_of_data hd, hg] at hok
      obtain ⟨h, hnone, -⟩ := hok
      cases hnone
    | some h =>
      rw [string_of_data hd, hg] at hok
      obtain ⟨h', hsome, rfl, htype, hsize⟩ := hok
      obtain rfl : h = h' := Option.some.inj hsome
      obtain ⟨hs, ht⟩ := hm p h hg
      obtain ⟨b, hb⟩ : ∃ b, h.resize (sdsHdrSize h.type + h.len + 1) = some b := resize_isSome (by omega)
      obtain ⟨hbs, hblen, havail, htake⟩ := resize_good hs (Nat.le_refl _) hs.len_lt (fun _ => rfl) hb
      have hm' := healthy_changed hm hg ⟨hbs, terminated_of_eq ht hblen htake⟩
      have hstr : (w.changed p (b.sdssetalloc h.len)).string x = some (b.sdssetalloc h.len) := by
        rw [string_of_data (show World.data (w.changed p _) x = some p from hd), get_changed hg]
      refine ⟨w.changed p (b.sdssetalloc h.len), ?_, hm', .inr ?_, ?_⟩
      · rw [shrinkToFit_extend hd hf hg htype, Nat.mod_eq_of_lt hsize, hb]
        rfl
      · rw [held_of_string (by rw [string_of_data hd, hg])]
        exact holds_of_take hs ht hstr hblen htake
      · rw [capacity_of_string hstr, Nat.mod_eq_of_lt hbs.capacity_lt, size_of_string hstr, havail, Nat.sub_self]
        rfl

theorem shrinkToFit_bad (hm : w.mem.Healthy) (hf : w.mem.fails = []) (hno : ¬ ShrinkOk w x stays)
    (hr : w.shrinkToFit x stays = some w') : ¬ Promised w w' (.shrinkToFit x stays) := by
  obtain ⟨hnone, hno⟩ := not_or.mp hno
  obtain ⟨p, hd⟩ := Option.ne_none_iff_exists'.mp hnone
  -- it is enough that the bytes are gone
  suffices hgone : ¬ w'.Holds x (w.held x) from fun hp => hp.1.elim (fun hnull => hnone hnull.1) hgone
  rw [shrinkToFit_eq hd] at hr
  rw [string_of_data hd] at hno
  cases hg : w.mem.heap.get p with
  | none =>
    unfold sdsRemoveFreeSpaceWith at hr
    rw [hg] at hr
    cases hr
  | some h =>
    rw [hg] at hno
    have hs := (hm p h hg).1
    by_cases hmove : stays = true ∧
      (h.type = sdsReqType h.len ∨ sdsReqType h.len ≠ .type5 ∧ sdsReqType h.len ≠ .type8)
    · obtain ⟨rfl, htype⟩ := hmove
      rw [← shrinkToFit_eq hd, shrinkToFit_extend hd hf hg htype] at hr
      obtain ⟨b, hb, rfl⟩ := Option.map_eq_some_iff.mp hr
      have hstr : (w.changed p (b.sdssetalloc h.len)).string x = some (b.sdssetalloc h.len) := by
        rw [string_of_data (show World.data (w.changed p _) x = some p from hd), get_changed hg]
      have hlt : h.len < 2 ^ 64 := Nat.lt_of_le_of_lt (Nat.le_add_right _ _) hs.capacity_lt
      exact not_holds_of_nil hstr (resize_wraps hlt (fun hwrap => hno ⟨h, rfl, rfl, htype, hwrap⟩) hb)
    · obtain ⟨⟨m, r⟩, hrem, rfl⟩ := Option.map_eq_some_iff.mp hr
      have hlost : Lost ⟨m, w.slices⟩ x := ⟨p, hd, removeFreeSpaceWith_dead hf hg hmove hrem⟩
      exact hlost.not_holds _

end Objects

/-! ## Runs -/

section Runs

variable {w w' : World} {act : CapAct} {o : Option World}

/-- The strings are good, too. -/
def CapState.Good : CapState → Prop
  | .running w last => w.mem.Healthy ∧ CapKept (.running w last)
  | .undefined act => CapKept (.undefined act)

theorem CapState.Good.kept {σ : CapState} (h : σ.Good) : CapKept σ := by
  cases σ with
  | running w last => exact h.2
  | undefined act => exact h

/-- One call, with the condition and without it. -/
theorem afterCap_iff (hm : w.mem.Healthy) (hr : w.calm.afterCap act = some o) :
    (CapOk (.running w none) act →
      (∃ w', o = some w' ∧ w'.mem.Healthy ∧ Promised w w' act) ∨ o = none ∧ ∃ value, act = .value value) ∧
    (¬ CapOk (.running w none) act → (∀ value, act ≠ .value value) ∧ ∀ w', o = some w' → ¬ Promised w w' act) := by
  have hcalm : w.calm.mem.Healthy := hm.congr rfl
  cases act with
  | value act =>
    refine ⟨fun _ => ?_, fun hno => absurd trivial hno⟩
    cases o with
    | none => exact .inr ⟨rfl, act, rfl⟩
    | some w' => exact .inl ⟨w', rfl, healthy_after hcalm hr, trivial⟩
  | reserve x n stays =>
    simp only [World.afterCap, Option.ite_none_right_eq_some] at hr
    obtain ⟨hx, hr⟩ := hr
    obtain rfl := Option.some.inj hr
    exact ⟨fun hok => .inl (reserve_ok hcalm rfl hx hok),
      fun hno => ⟨fun _ => CapAct.noConfusion, fun w' ho => reserve_bad (w := w.calm) hcalm rfl hx hno ho⟩⟩
  | shrinkToFit x stays =>
    simp only [World.afterCap, Option.ite_none_right_eq_some] at hr
    obtain ⟨hx, hr⟩ := hr
    obtain rfl := Option.some.inj hr
    exact ⟨fun hok => .inl (shrinkToFit_ok hcalm rfl hok),
      fun hno => ⟨fun _ => CapAct.noConfusion, fun w' ho => shrinkToFit_bad (w := w.calm) hcalm rfl hno ho⟩⟩

theorem CapState.Good.step {σ σ' : CapState} (h : σ.Good) (hok : CapOk σ act)
    (hr : capacities.step σ act = some σ') : σ'.Good := by
  cases σ with
  | undefined => cases hr
  | running w last =>
    obtain ⟨o, ho, he⟩ := Option.map_eq_some_iff.mp (show (w.calm.afterCap act).map _ = some σ' from hr)
    rcases (afterCap_iff h.1 ho).1 (show CapOk (.running w none) act by cases act <;> exact hok) with
      ⟨w', rfl, hm', hp⟩ | ⟨rfl, hvalue⟩
    · rw [← he]
      refine ⟨hm', fun w0 act' hlast => ?_⟩
      cases hlast
      exact hp
    · rw [← he]
      exact hvalue

theorem CapState.Good.bad {σ σ' : CapState} (h : σ.Good) (hno : ¬ CapOk σ act)
    (hr : capacities.step σ act = some σ') : ¬ CapKept σ' := by
  cases σ with
  | undefined => cases hr
  | running w last =>
    obtain ⟨o, ho, he⟩ := Option.map_eq_some_iff.mp (show (w.calm.afterCap act).map _ = some σ' from hr)
    obtain ⟨hvalue, hbad⟩ := (afterCap_iff h.1 ho).2 (show ¬ CapOk (.running w none) act by cases act <;> exact hno)
    rw [← he]
    cases o with
    | none => exact fun ⟨value, hact⟩ => hvalue value hact
    | some w' => exact fun hk => hbad w' rfl (hk w act rfl)

/-- **The capacity operations keep the contents** in every state of a run if and only if every `reserve` and every
`shrinkToFit` meets the condition.  The other members may do what they like. -/
theorem capacity_iff (hw : w.mem.Healthy) (acts : List CapAct) :
    Always capacities CapKept (.running w none) acts ↔ StepsOk capacities CapOk (.running w none) acts :=
  always_iff_stepsOk (fun _ hk => CapState.Good.kept hk) (fun _ _ _ hk hok hr => hk.step hok hr)
    (fun _ _ _ hk hno hr => hk.bad hno hr) (show (CapState.running w none).Good from ⟨hw, fun _ _ h => by cases h⟩) acts

/-- No object, and no string. -/
def World.empty : World := ⟨⟨⟨[]⟩, []⟩, []⟩

theorem healthy_empty : World.empty.mem.Healthy := fun _ _ h => by cases h

/-- A hundred bytes are reserved for a new Slice and the block grows where it is, so that the byte that is appended finds
room in it. -/
theorem capacity_reserved : Always capacities CapKept (.running .empty none)
    [.value (.base .default), .reserve 0 100 true, .value (.base (.append 0 (.chr 97)))] :=
  (capacity_iff healthy_empty _).2 (by decide +kernel)

/-- The header of a short string cannot say that there is room: `ab` moves under any allocator, and `data` is left
behind. -/
theorem reserve_not_kept : ¬ Always capacities CapKept (.running .empty none)
    [.value (.base (.ofCStr (.ext [some 97, some 98, some 0]))), .reserve 0 1 true] := by
  intro h
  have hkept : CapKept _ := h.exec rfl
  have hholds := (hkept _ _ rfl).1
  revert hholds
  decide +kernel

end Runs

end BeanRaft.Slice
