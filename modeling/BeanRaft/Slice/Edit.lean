import BeanRaft.Slice.Capacity
import BeanRaft.Slice.Headers
import BeanRaft.Slice.Vectors
import Mathlib.Data.List.DropRight

/-!
# BeanRaft.Slice.Edit — the functions that change a string in place

The rest of the string functions of `sds.cpp`, and what those that allocate nothing make of the bytes.

* `Text.edited`, `Text.ended`, `Text.keep`: a block that holds other bytes under the same header.
* `Edits f cs ds`: `f` takes a string with the bytes `cs` to the same place with the bytes `ds`, allocates nothing and
  leaves the other strings alone.
* `sdstrim_text`, `sdsrange_text`, `sdsmapchars_text`, …: what each function makes of the bytes.
-/

namespace BeanRaft.Slice

open CInt Lib

/-! ## The code -/

/-- `sdsdup` (line 164) -/
def sdsdup (m : Mem) (s : Ptr) : Option (Mem × Option Ptr) := (m.heap.get s).bind fun h => sdsnewlen m (.sds s 0) h.len

/-- `sdsfromlonglong` (line 514) -/
def sdsfromlonglong (m : Mem) (value : Int64) : Option (Mem × Option Ptr) :=
  (sdsll2str (List.replicate SDS_LLSTR_SIZE none) value).bind fun (buf, len) => sdsnewlen m (.ext buf) len

/-- `sdsupdatelen` (line 188) -/
def sdsupdatelen (m : Mem) (s : Ptr) : Option Mem :=
  ((Src.sds s 0).strlen m).bind fun reallen => m.modify s fun h => some (h.sdssetlen reallen)

/-- `sdsclear` (line 197) -/
def sdsclear (m : Mem) (s : Ptr) : Option Mem := m.modify s fun h => (h.sdssetlen 0).write 0 [some 0]

/-- The assertions of `sdsIncrLen` and the new length, as a `size_t`.  The amount that is taken off is an `unsigned int`
for the types below 64, and a type 5 with an `incr` of 0 is refused. -/
def incrLen (h : Sdshdr) (incr : Int) : Option Nat :=
  match h.type with
  | .type5 =>
    if (0 < incr ∧ h.len + incr < 32) ∨ (incr < 0 ∧ uint32 (-incr) ≤ h.len) then some (uint64 (h.len + incr)) else none
  | .type32 =>
    if (0 ≤ incr ∧ uint32 incr ≤ uint32 (h.alloc - h.len)) ∨ (incr < 0 ∧ uint32 (-incr) ≤ h.len) then
      some (uint32 (h.len + incr))
    else none
  | .type64 =>
    if (0 ≤ incr ∧ uint64 incr ≤ uint64 (h.alloc - h.len)) ∨ (incr < 0 ∧ uint64 (-incr) ≤ h.len) then
      some (uint64 (h.len + incr))
    else none
  | type =>
    if (0 ≤ incr ∧ incr ≤ h.alloc - h.len) ∨ (incr < 0 ∧ uint32 (-incr) ≤ h.len) then
      some ((h.len + incr) % 2 ^ type.bits).toNat
    else none

/-- `sdsIncrLen` (line 333); `none` is also an assertion that fails.  `-incr` overflows for the least `ssize_t`. -/
def sdsIncrLen (m : Mem) (s : Ptr) (incr : Int64) : Option Mem :=
  if incr.toInt = -2 ^ 63 then none
  else
    m.modify s fun h => (incrLen h incr.toInt).bind fun len =>
      ({ h with len := len % 2 ^ h.type.bits } : Sdshdr).write len [some 0]

/-- What the comment of `sdsIncrLen` says to do with a `read` that returns `bs`. -/
def readInto (m : Mem) (s : Ptr) (size : Nat) (bs : List UInt8) : Option (Mem × Option Ptr) :=
  (m.heap.get s).bind fun h =>
    ifNotNull (sdsMakeRoomFor m s size) fun m s =>
      (m.modify s fun b => b.write h.len (bs.map some)).bind fun m =>
        (sdsIncrLen m s (Int64.ofNat bs.length)).map (·, some s)

/-- `sdsgrowzero` (line 379) -/
def sdsgrowzero (m : Mem) (s : Ptr) (len : Nat) : Option (Mem × Option Ptr) :=
  (m.heap.get s).bind fun h =>
    if len ≤ h.len then some (m, some s)
    else
      ifNotNull (sdsMakeRoomFor m s (len - h.len)) fun m s =>
        (m.modify s fun b =>
          (b.write h.len (List.replicate (len - h.len + 1) (some 0))).map fun b => b.sdssetlen len).map (·, some s)

/-- `sdscpylen` (line 426) -/
def sdscpylen (m : Mem) (s : Ptr) (t : Src) (len : Nat) : Option (Mem × Option Ptr) :=
  (m.heap.get s).bind fun h =>
    ifNotNull (if h.sdsalloc < len then sdsMakeRoomFor m s (uint64 (len - h.len)) else some (m, some s)) fun m s =>
      (m.memcpy s 0 t len).bind fun m =>
        (m.modify s fun b => (b.write len [some 0]).map fun b => b.sdssetlen len).map (·, some s)

/-- `sdscpy` (line 439) -/
def sdscpy (m : Mem) (s : Ptr) (t : Src) : Option (Mem × Option Ptr) :=
  (t.strlen m).bind fun len => sdscpylen m s t len

/-- `strchr` finds the null term too. -/
def findChar : List Byte → UInt8 → Option Bool
  | [], _ => none
  | none :: _, _ => none
  | some a :: bs, c => if a = c then some true else if a = 0 then some false else findChar bs c

/-- `strchr(cset, c) != NULL` -/
def Src.strchr (m : Mem) (cset : Src) (c : UInt8) : Option Bool := (cset.bytes m).bind fun bs => findChar bs c

/-- `while(sp <= end && strchr(cset, *sp)) sp++;`, with `n` bytes from `sp` on left. -/
def trimLeft (m : Mem) (cset : Src) (buf : List Byte) : Nat → Nat → Option Nat
  | 0, sp => some sp
  | n + 1, sp => buf[sp]?.join.bind fun c => (cset.strchr m c).bind fun hit =>
      if hit then trimLeft m cset buf n (sp + 1) else some sp

/-- `while(ep > sp && strchr(cset, *ep)) ep--;`, where `ep` is `sp + n`. -/
def trimRight (m : Mem) (cset : Src) (buf : List Byte) (sp : Nat) : Nat → Option Nat
  | 0 => some 0
  | n + 1 => buf[sp + (n + 1)]?.join.bind fun c => (cset.strchr m c).bind fun hit =>
      if hit then trimRight m cset buf sp n else some (n + 1)

/-- `memmove(s, s + src, n)` -/
def Sdshdr.memmove (h : Sdshdr) (src n : Nat) : Option Sdshdr := (Lib.read h.buf src n).bind fun bs => h.write 0 bs

/-- The bytes from `src` on moved to the front, when there is something to move, and the string ended behind them. -/
def Sdshdr.keep (h : Sdshdr) (move : Prop) [Decidable move] (src len : Nat) : Option Sdshdr :=
  (if move then h.memmove src len else some h).bind fun h => (h.write len [some 0]).map fun h => h.sdssetlen len

/-- `sdstrim` (line 791).  `sp > ep` when everything before `sp` was trimmed. -/
def sdstrim (m : Mem) (s : Ptr) (cset : Src) : Option Mem :=
  (m.heap.get s).bind fun h => (trimLeft m cset h.buf h.len 0).bind fun sp =>
    (if h.len ≤ sp then some 0 else (trimRight m cset h.buf sp (h.len - 1 - sp)).map (· + 1)).bind fun len =>
      m.modify s fun h => h.keep (sp ≠ 0) sp len

/-- A negative index counts from the end of the string. -/
def fromEnd (len : Nat) (i : Int) : Int := if i < 0 then max (int64 (len + i)) 0 else i

/-- `(start > end) ? 0 : (end-start)+1`, on `ssize_t`; `none` is an overflow. -/
def rangeLen (start stop : Int) : Option Nat :=
  if stop < start then some 0 else if stop - start + 1 < 2 ^ 63 then some (stop - start + 1).toNat else none

/-- The interval cut to the string: where it starts, and its length. -/
def rangeWithin (len : Nat) (start stop : Int) : Option (Int × Nat) :=
  (rangeLen start stop).bind fun newlen =>
    if newlen = 0 then some (0, 0)
    else if int64 len ≤ start then some (start, 0)
    else if int64 len ≤ stop then (rangeLen start (int64 (len - 1))).map (start, ·)
    else some (start, newlen)

/-- `sdsrange` (line 822) -/
def sdsrange (m : Mem) (s : Ptr) (start stop : Int64) : Option Mem :=
  (m.heap.get s).bind fun h =>
    if h.len = 0 then some m
    else
      (rangeWithin h.len (fromEnd h.len start.toInt) (fromEnd h.len stop.toInt)).bind fun (start, newlen) =>
        m.modify s fun h => h.keep (start ≠ 0 ∧ newlen ≠ 0) start.toNat newlen

/-- `s[j] = f(s[j])` for `n` bytes from `j` on. -/
def mapBytes (s : Ptr) (f : Mem → UInt8 → Option UInt8) : Nat → Mem → Nat → Option Mem
  | 0, m, _ => some m
  | n + 1, m, j => ((Src.sds s 0).byte m j).bind fun c => (f m c).bind fun c =>
      (m.modify s fun h => h.write j [some c]).bind fun m => mapBytes s f n m (j + 1)

def tolower (c : UInt8) : UInt8 := if 65 ≤ c ∧ c ≤ 90 then c + 32 else c

def toupper (c : UInt8) : UInt8 := if 97 ≤ c ∧ c ≤ 122 then c - 32 else c

/-- `sdstolower` (line 851) -/
def sdstolower (m : Mem) (s : Ptr) : Option Mem :=
  (m.heap.get s).bind fun h => mapBytes s (fun _ c => some (tolower c)) h.len m 0

/-- `sdstoupper` (line 858) -/
def sdstoupper (m : Mem) (s : Ptr) : Option Mem :=
  (m.heap.get s).bind fun h => mapBytes s (fun _ c => some (toupper c)) h.len m 0

/-- The inner loop of `sdsmapchars`, with `n` characters from `i` on left. -/
def mapchar (src dst : Src) (m : Mem) (c : UInt8) : Nat → Nat → Option UInt8
  | 0, _ => some c
  | n + 1, i => (src.byte m i).bind fun a => if c = a then dst.byte m i else mapchar src dst m c n (i + 1)

/-- `sdsmapchars` (line 1161) -/
def sdsmapchars (m : Mem) (s : Ptr) (src dst : Src) (setlen : Nat) : Option Mem :=
  (m.heap.get s).bind fun h => mapBytes s (fun m c => mapchar src dst m c setlen 0) h.len m 0

/-! ## Texts that are edited -/

section Text

variable {h b : Sdshdr} {cs ds : List UInt8} {buf : List Byte} {m : Mem} {src n : Nat}

/-- The block of a string holds a shorter text, or a longer one that the free space has room for. -/
theorem Text.edited (ht : Text h cs) (hle : ds.length ≤ h.len + h.sdsavail) (hlen : buf.length = h.buf.length)
    (htake : buf.take (ds.length + 1) = ds.map some ++ [some 0]) :
    Text (({ h with buf := buf } : Sdshdr).sdssetlen ds.length) ds := by
  have hs := ht.sound
  have hroom := hs.room
  by_cases h5 : h.type = .type5
  · have hzero := sdsavail_type5 h5
    have hlt := hs.len_lt
    rw [hzero] at hle hroom
    have hmod : ds.length % 2 ^ h.type.bits = ds.length := Nat.mod_eq_of_lt (by omega)
    refine ⟨⟨Nat.mod_lt _ (Nat.two_pow_pos _), fun hne => absurd h5 hne, fun hne => absurd h5 hne, ?_⟩, hmod, htake⟩
    rw [sdsavail_type5 (h := ({ h with buf := buf } : Sdshdr).sdssetlen ds.length) h5]
    show ds.length % 2 ^ h.type.bits + 0 < buf.length
    omega
  · have hsum := sdsavail_eq h5 (hs.len_le h5) (hs.alloc_lt h5)
    have hla := hs.len_le h5
    have halloc := hs.alloc_lt h5
    have hmod : ds.length % 2 ^ h.type.bits = ds.length := Nat.mod_eq_of_lt (by omega)
    have hlea : ds.length % 2 ^ h.type.bits ≤ h.alloc := by omega
    refine ⟨⟨Nat.mod_lt _ (Nat.two_pow_pos _), fun _ => hlea, fun _ => halloc, ?_⟩, hmod, htake⟩
    rw [sdsavail_eq (h := ({ h with buf := buf } : Sdshdr).sdssetlen ds.length) h5 hlea halloc]
    show ds.length % 2 ^ h.type.bits + (h.alloc - ds.length % 2 ^ h.type.bits) < buf.length
    omega

/-- The bytes of the text are in the block, and it is ended behind them. -/
theorem Text.ended (ht : Text h cs) (ds : List UInt8) (hle : ds.length ≤ h.len + h.sdsavail) (hlen : buf.length = h.buf.length)
    (htake : buf.take ds.length = ds.map some) :
    ∃ b, (({ h with buf := buf } : Sdshdr).write ds.length [some 0]).map (fun b => b.sdssetlen ds.length) = some b ∧
      Text b ds := by
  have hroom := ht.sound.room
  have hfits : ds.length + [some (0 : UInt8)].length ≤ buf.length := by
    rw [List.length_singleton]
    omega
  obtain ⟨buf', hw⟩ := write_isSome hfits
  have htake' := take_write hw
  rw [List.length_singleton, htake] at htake'
  refine ⟨({ h with buf := buf' } : Sdshdr).sdssetlen ds.length, ?_, ht.edited hle ((length_write hw).trans hlen) htake'⟩
  unfold Sdshdr.write
  simp [hw]

/-- The bytes of a string. -/
theorem Text.take (ht : Text h cs) (hn : n ≤ cs.length) : h.buf.take n = (cs.take n).map some := by
  have htake := congrArg (List.take n) ht.text
  rw [List.take_take, Nat.min_eq_left (by omega), List.take_append_of_le_length (by simpa using hn)] at htake
  rw [htake, List.map_take]

theorem Text.split (ht : Text h cs) : ∃ rest, h.buf = cs.map some ++ some 0 :: rest := by
  refine ⟨h.buf.drop (cs.length + 1), ?_⟩
  have hsplit := List.take_append_drop (cs.length + 1) h.buf
  rw [ht.text, List.append_assoc] at hsplit
  exact hsplit.symm

theorem Text.byte (ht : Text h cs) (hn : n < cs.length) : h.buf[n]?.join = some cs[n] := by
  have hget := congrArg (fun l => l[n]?) (ht.take (Nat.le_refl _))
  simp [hn] at hget
  simp [hget]

/-- A byte of the string is stored. -/
theorem Text.store (ht : Text h cs) (hn : n < cs.length) (c : UInt8) :
    ∃ b, h.write n [some c] = some b ∧ Text b (cs.set n c) := by
  have hroom := ht.sound.room
  have hlen := ht.len
  have hw : Lib.write h.buf n [some c] = some (h.buf.set n (some c)) := by
    unfold Lib.write
    rw [List.length_singleton, if_pos (by omega), List.set_eq_take_append_cons_drop, if_pos (by omega)]
    simp
  have htake : (h.buf.set n (some c)).take ((cs.set n c).length + 1) = (cs.set n c).map some ++ [some 0] := by
    rw [List.length_set, List.take_set, ht.text, List.set_append_left _ _ (by simpa using hn), List.map_set]
  have htext := ht.edited (by rw [List.length_set]; omega) List.length_set htake
  refine ⟨{ h with buf := h.buf.set n (some c) }, by rw [Sdshdr.write, hw]; rfl, ?_⟩
  have hmod : (cs.set n c).length % 2 ^ h.type.bits = h.len := by
    rw [List.length_set, ← hlen]
    exact Nat.mod_eq_of_lt ht.sound.len_lt
  unfold Sdshdr.sdssetlen at htext
  dsimp only at htext
  rwa [hmod] at htext

/-- A part of the string is moved to the front, and the string is ended behind it. -/
theorem Text.keep (ht : Text h cs) (move : Prop) [Decidable move] (hle : n = 0 ∨ src + n ≤ cs.length)
    (hmove : move → src ≤ cs.length) (hstay : ¬ move → src = 0 ∨ n = 0) : ∃ b, h.keep move src n = some b ∧ Text b ((cs.drop src).take n) := by
  have hlen : ((cs.drop src).take n).length = n := by
    rw [List.length_take, List.length_drop]
    omega
  have hroom := ht.sound.room
  have hcs := ht.len
  have hfit : ((cs.drop src).take n).length ≤ h.len + h.sdsavail := by omega
  unfold Sdshdr.keep
  by_cases hm : move
  · have hsrc := hmove hm
    have hread : Lib.read h.buf src n = some (((cs.drop src).take n).map some) := by
      have htake := ht.take (Nat.le_refl cs.length)
      have hdrop : (h.buf.drop src).take n = (((h.buf.take cs.length).drop src)).take n := by
        rw [List.drop_take, List.take_take, Nat.min_eq_left (by omega)]
      unfold Lib.read
      rw [if_pos (by omega), hdrop, htake]
      simp
    have hwlen : 0 + (((cs.drop src).take n).map some).length ≤ h.buf.length := by
      rw [List.length_map, hlen]
      omega
    obtain ⟨buf, hw⟩ := write_isSome hwlen
    have htake := take_write hw
    rw [List.take_zero, List.nil_append, Nat.zero_add, List.length_map] at htake
    have hmove : h.memmove src n = some { h with buf := buf } := by
      unfold Sdshdr.memmove Sdshdr.write
      rw [hread, Option.bind_some, hw]
      rfl
    obtain ⟨b, hb, htext⟩ := ht.ended _ hfit (length_write hw) htake
    rw [hlen] at hb
    refine ⟨b, ?_, htext⟩
    rw [if_pos hm, hmove]
    exact hb
  · have hfront : (cs.drop src).take n = cs.take n := by
      rcases hstay hm with h0 | h0
      · simp [h0]
      · simp [h0]
    have htake : h.buf.take ((cs.drop src).take n).length = ((cs.drop src).take n).map some := by
      rw [hlen, hfront]
      exact ht.take (by omega)
    obtain ⟨b, hb, htext⟩ := ht.ended _ hfit rfl htake
    rw [hlen] at hb
    refine ⟨b, ?_, htext⟩
    rw [if_neg hm]
    exact hb

end Text

/-! ## In place -/

/-- `f` changes the bytes of a string from `cs` to `ds`, allocates nothing and leaves the other strings alone. -/
def Edits (g : Nat → Option Sdshdr) (l : List (Ptr × List UInt8)) (f : Mem → Ptr → Option Mem) (cs ds : List UInt8) :
    Prop :=
  ∀ m p, Texts g ((p, cs) :: l) m → ∃ m', f m p = some m' ∧ m'.fails = m.fails ∧ Texts g ((p, ds) :: l) m'

section Edits

variable {g : Nat → Option Sdshdr} {l : List (Ptr × List UInt8)} {m : Mem} {h b : Sdshdr} {cs ds : List UInt8}
  {p : Ptr} {f : Sdshdr → Option Sdshdr} {cset src dst : Src} {n : Nat}

/-- The block of a string is changed once more, and holds a text again. -/
theorem modify_after {m0 : Mem} (ho : Texts g ((p, cs) :: l) m0)
    (hm : m.heap.get = Function.update m0.heap.get p (some h)) (hf : f h = some b) (ht : Text b ds) :
    ∃ m', m.modify p f = some m' ∧ m'.fails = m.fails ∧ Texts g ((p, ds) :: l) m' := by
  have hg : m.heap.get p = some h := by rw [hm, Function.update_self]
  obtain ⟨m', hmod⟩ := modify_isSome hg hf
  obtain ⟨b', hb', hfails, hget⟩ := modify_get hg hmod
  obtain rfl := Option.some.inj (hf.symm.trans hb')
  refine ⟨m', hmod, hfails, Owns.moved ho (.stay ?_) ht⟩
  rw [hget, hm, Function.update_idem]

theorem modify_text (ho : Texts g ((p, cs) :: l) m) (hg : m.heap.get p = some h) (hf : f h = some b) (ht : Text b ds) :
    ∃ m', m.modify p f = some m' ∧ m'.fails = m.fails ∧ Texts g ((p, ds) :: l) m' :=
  modify_after ho (Function.update_eq_self_iff.mpr hg.symm).symm hf ht

theorem edits_modify (hf : ∀ h, Text h cs → ∃ b, f h = some b ∧ Text b ds) : Edits g l (fun m p => m.modify p f) cs ds := by
  intro m p ho
  obtain ⟨h, hg, ht, -⟩ := Owns.head ho
  obtain ⟨b, hb, htext⟩ := hf h ht
  exact modify_text ho hg hb htext

/-- What is done depends on the block, which is read first. -/
theorem edits_get {k : Sdshdr → Mem → Ptr → Option Mem}
    (hk : ∀ h m p, Texts g ((p, cs) :: l) m → m.heap.get p = some h → Text h cs →
      ∃ m', k h m p = some m' ∧ m'.fails = m.fails ∧ Texts g ((p, ds) :: l) m') :
    Edits g l (fun m p => (m.heap.get p).bind fun h => k h m p) cs ds := by
  intro m p ho
  obtain ⟨h, hg, ht, -⟩ := Owns.head ho
  obtain ⟨m', hm, hrest⟩ := hk h m p ho hg ht
  refine ⟨m', ?_, hrest⟩
  dsimp only
  rw [hg]
  exact hm

theorem sdsclear_text : Edits g l sdsclear cs [] := by
  refine edits_modify fun h ht => ?_
  obtain ⟨b, hb, htext⟩ := ht.ended [] (Nat.zero_le _) rfl rfl
  refine ⟨b, ?_, htext⟩
  rw [← hb]
  unfold Sdshdr.write
  rw [Option.map_map]
  rfl

/-- Up to the first null byte. -/
theorem sdsupdatelen_text : Edits g l sdsupdatelen cs (cstr cs) := by
  intro m p ho
  obtain ⟨h, hg, ht, -⟩ := Owns.head ho
  obtain ⟨rest, hbuf⟩ := ht.split
  obtain ⟨h0, rest', hsplit⟩ := cstr_split cs rest
  have hstrlen : (Src.sds p 0).strlen m = some (cstr cs).length := by
    have hlen := strlenOf_text h0 rest'
    simp only [Src.strlen, Src.bytes, hg, Option.bind_some, Nat.zero_le, if_true, List.drop_zero]
    rw [hbuf, hsplit]
    exact hlen
  have htake : h.buf.take ((cstr cs).length + 1) = (cstr cs).map some ++ [some 0] := by
    rw [hbuf, hsplit, ← List.singleton_append, ← List.append_assoc]
    exact List.take_left' (by simp)
  have hle : (cstr cs).length ≤ h.len + h.sdsavail := by
    have hprefix := (List.takeWhile_prefix (· ≠ 0) (l := cs)).length_le
    have hlen := ht.len
    unfold cstr
    omega
  obtain ⟨m', hm, hrest⟩ := modify_text (f := fun h => some (h.sdssetlen (cstr cs).length)) ho hg rfl
    (ht.edited hle rfl htake)
  refine ⟨m', ?_, hrest⟩
  unfold sdsupdatelen
  rw [hstrlen]
  exact hm

/-- The characters that `sdstrim` takes off: those of the set, and null bytes, which end it. -/
def trimmed (cset : List UInt8) (c : UInt8) : Bool := c ∈ cstr cset ∨ c = 0

theorem findChar_text (cset : List UInt8) (rest : List Byte) (c : UInt8) :
    findChar (cset.map some ++ some 0 :: rest) c = some (trimmed cset c) := by
  induction cset with
  | nil =>
    by_cases hc : c = 0
    · simp [findChar, trimmed, cstr, hc]
    · simp [findChar, trimmed, cstr, hc, Ne.symm hc]
  | cons a cset ih =>
    unfold trimmed cstr at ih ⊢
    rw [List.map_cons, List.cons_append, findChar, List.takeWhile_cons]
    by_cases hac : a = c
    · subst hac
      by_cases ha : a = 0
      · simp [ha]
      · simp [ha]
    · by_cases ha : a = 0
      · have hc : ¬ c = 0 := fun h => hac (ha.trans h.symm)
        simp [ha, hc, Ne.symm hc]
      · rw [if_neg hac, if_neg ha, ih]
        simp [ha, Ne.symm hac]

/-- The set is read outside of the string. -/
theorem strchr_text (hcset : Fixed g cset (ds ++ [0])) (ho : Texts g l m) (c : UInt8) :
    cset.strchr m c = some (trimmed ds c) := by
  obtain ⟨rest, hbytes⟩ := hcset.bytes
  unfold Src.strchr
  rw [hbytes l m ho, Option.bind_some, List.map_append, List.append_assoc]
  exact findChar_text ds rest c

/-- What `sdstrim` leaves. -/
def trim (cset cs : List UInt8) : List UInt8 := (cs.dropWhile (trimmed cset)).rdropWhile (trimmed cset)

theorem trimLeft_text (hcset : Fixed g cset (ds ++ [0])) (ho : Texts g l m) (ht : Text h cs) {sp : Nat}
    (hn : sp + n = cs.length) : trimLeft m cset h.buf n sp =
      some (cs.length - ((cs.drop sp).dropWhile (trimmed ds)).length) := by
  induction n generalizing sp with
  | zero =>
    rw [trimLeft, List.drop_eq_nil_of_le (by omega), List.dropWhile_nil, List.length_nil, Nat.sub_zero]
    congr
  | succ n ih =>
    have hlt : sp < cs.length := by omega
    rw [trimLeft, ht.byte hlt, Option.bind_some, strchr_text hcset ho, Option.bind_some, List.drop_eq_getElem_cons hlt,
      List.dropWhile_cons]
    by_cases hc : trimmed ds cs[sp] = true
    · rw [if_pos hc, if_pos hc]
      exact ih (by omega)
    · rw [if_neg hc, if_neg hc, List.length_cons, List.length_drop]
      congr
      omega

/-- The bytes behind `sp` are looked at from the last one on. -/
theorem trimRight_text (hcset : Fixed g cset (ds ++ [0])) (ho : Texts g l m) (ht : Text h cs) {sp : Nat}
    (hlt : sp < cs.length) (hfirst : trimmed ds cs[sp] = false) (hn : sp + n < cs.length) :
    ∃ k ≤ n, trimRight m cset h.buf sp n = some k ∧
      ((cs.drop sp).take (n + 1)).rdropWhile (trimmed ds) = (cs.drop sp).take (k + 1) := by
  induction n with
  | zero =>
    refine ⟨0, Nat.le_refl 0, rfl, ?_⟩
    rw [List.drop_eq_getElem_cons hlt]
    show [cs[sp]].rdropWhile (trimmed ds) = [cs[sp]]
    rw [List.rdropWhile_singleton, hfirst]
    rfl
  | succ n ih =>
    have hget : (cs.drop sp).take (n + 1 + 1) = (cs.drop sp).take (n + 1) ++ [cs[sp + (n + 1)]] := by
      rw [List.take_add_one, List.getElem?_drop, List.getElem?_eq_getElem hn]
      rfl
    rw [trimRight, ht.byte hn, Option.bind_some, strchr_text hcset ho, Option.bind_some, hget]
    by_cases hc : trimmed ds cs[sp + (n + 1)] = true
    · rw [if_pos hc, List.rdropWhile_concat_pos _ _ _ hc]
      obtain ⟨k, hk, hloop, hdrop⟩ := ih (by omega)
      exact ⟨k, by omega, hloop, hdrop⟩
    · rw [if_neg hc, List.rdropWhile_concat_neg _ _ _ hc]
      exact ⟨n + 1, Nat.le_refl _, rfl, hget.symm⟩

/-- **sdstrim** -/
theorem sdstrim_text (hcset : Fixed g cset (ds ++ [0])) : Edits g l (fun m p => sdstrim m p cset) cs (trim ds cs) := by
  refine edits_get fun h m p ho hg ht => ?_
  have hleft := trimLeft_text hcset ho ht (Nat.zero_add cs.length)
  rw [List.drop_zero] at hleft
  obtain ⟨pre, hsplit⟩ := List.dropWhile_suffix (trimmed ds) (l := cs)
  have hlen := congrArg List.length hsplit
  rw [List.length_append] at hlen
  have hsp : cs.length - (cs.dropWhile (trimmed ds)).length = pre.length := by omega
  have hdrop : cs.drop pre.length = cs.dropWhile (trimmed ds) := by
    rw [← hsplit, List.drop_left, hsplit]
  have hright : ∃ k, pre.length + k ≤ cs.length ∧
      (if cs.length ≤ pre.length then some 0
        else (trimRight m cset h.buf pre.length (cs.length - 1 - pre.length)).map (· + 1)) = some k ∧
      (cs.drop pre.length).take k = trim ds cs := by
    unfold trim
    by_cases hall : cs.length ≤ pre.length
    · have hnil : cs.dropWhile (trimmed ds) = [] := List.length_eq_zero_iff.mp (by omega)
      refine ⟨0, by omega, if_pos hall, ?_⟩
      rw [hnil]
      simp
    · have hlt : pre.length < cs.length := Nat.lt_of_not_le hall
      have hcons := List.drop_eq_getElem_cons hlt
      have hfirst : trimmed ds cs[pre.length] = false := by
        have hlist : cs.dropWhile (trimmed ds) = cs[pre.length] :: cs.drop (pre.length + 1) := hdrop.symm.trans hcons
        have hhead := List.head_dropWhile_not (trimmed ds) (by rw [hlist]; exact List.cons_ne_nil _ _)
        simp only [hlist, List.head_cons] at hhead
        simpa using hhead
      obtain ⟨k, hk, hloop, htake⟩ := trimRight_text hcset ho ht (n := cs.length - 1 - pre.length) hlt hfirst (by omega)
      refine ⟨k + 1, by omega, ?_, ?_⟩
      · rw [if_neg hall, hloop]
        rfl
      · rw [← htake, ← hdrop, List.take_of_length_le]
        rw [List.length_drop]
        omega
  obtain ⟨k, hk, hend, htrim⟩ := hright
  obtain ⟨b, hkeep, htext⟩ := ht.keep (pre.length ≠ 0) (.inr hk) (by omega) (by omega)
  rw [ht.len, hleft, Option.bind_some, hsp, hend, Option.bind_some]
  rw [htrim] at htext
  exact modify_text ho hg hkeep htext

/-- The place that an index of `sdsrange` stands for. -/
def place (len : Nat) (i : Int) : Nat := (if i < 0 then len + i else i).toNat

/-- What `sdsrange` leaves: the bytes between two places, both included. -/
def range (cs : List UInt8) (start stop : Int) : List UInt8 :=
  (cs.take (place cs.length stop + 1)).drop (place cs.length start)

/-- All but the interval from the first byte to the greatest `ssize_t`, whose length is none. -/
def RangeFits (cs : List UInt8) (start stop : Int) : Prop :=
  cs ≠ [] → place cs.length start = 0 → stop ≠ 2 ^ 63 - 1

instance (cs : List UInt8) (start stop : Int) : Decidable (RangeFits cs start stop) :=
  inferInstanceAs (Decidable (_ → _ → _))

theorem fromEnd_eq {len : Nat} {i : Int} (hlen : len < 2 ^ 63) (hi : -2 ^ 63 ≤ i) : fromEnd len i = place len i := by
  unfold fromEnd place
  by_cases hneg : i < 0
  · rw [if_pos hneg, if_pos hneg, int64_of_range (by omega) (by omega)]
    omega
  · rw [if_neg hneg, if_neg hneg]
    omega

/-- The only interval that is too long. -/
theorem place_lt_iff {len : Nat} {i j : Int} (hlen : len < 2 ^ 63) (hj : j < 2 ^ 63) :
    place len j + 1 < 2 ^ 63 + place len i ↔ (place len i = 0 → j ≠ 2 ^ 63 - 1) := by
  generalize place len i = a
  unfold place
  by_cases hneg : j < 0
  · rw [if_pos hneg]
    omega
  · rw [if_neg hneg]
    omega

theorem rangeLen_eq {a b : Nat} (hab : a ≤ b) (hfit : b + 1 < 2 ^ 63 + a) : rangeLen a b = some (b + 1 - a) := by
  unfold rangeLen
  rw [if_neg (by omega), if_pos (by omega)]
  congr
  omega

theorem rangeWithin_eq {len a b : Nat} (hlen : len < 2 ^ 63) (hfit : b + 1 < 2 ^ 63 + a) :
    ∃ src n : Nat, rangeWithin len a b = some ((src : Int), n) ∧ (n = 0 ∨ src + n ≤ len) ∧
      ∀ cs : List UInt8, cs.length = len → (cs.drop src).take n = (cs.take (b + 1)).drop a := by
  have hlast : int64 (len : Int) = len := int64_of_range (by omega) (by omega)
  unfold rangeWithin
  by_cases hab : a ≤ b
  · have hnewlen : ¬ b + 1 - a = 0 := by omega
    rw [rangeLen_eq hab hfit, Option.bind_some, if_neg hnewlen, hlast]
    by_cases ha : len ≤ a
    · -- behind the string
      refine ⟨a, 0, if_pos (by omega), .inl rfl, fun cs hcs => ?_⟩
      rw [List.take_zero, List.drop_eq_nil_of_le]
      rw [List.length_take]
      omega
    · by_cases hb : len ≤ b
      · have hlast' : int64 ((len : Int) - 1) = (len - 1 : Nat) := by
          rw [int64_of_range (by omega) (by omega)]
          omega
        refine ⟨a, len - a, ?_, by omega, fun cs hcs => ?_⟩
        · rw [if_neg (by omega), if_pos (by omega), hlast', rangeLen_eq (by omega) (by omega), Nat.sub_add_cancel (by omega)]
          rfl
        · rw [List.take_of_length_le (l := cs) (by omega), List.take_of_length_le]
          rw [List.length_drop]
          omega
      · refine ⟨a, b + 1 - a, ?_, by omega, fun cs hcs => ?_⟩
        · rw [if_neg (by omega), if_neg (by omega)]
        · rw [List.drop_take]
  · -- an empty interval
    refine ⟨0, 0, ?_, .inl rfl, fun cs hcs => ?_⟩
    · unfold rangeLen
      rw [if_pos (by omega)]
      rfl
    · rw [List.take_zero, List.drop_eq_nil_of_le]
      rw [List.length_take]
      omega

theorem sdsrange_text {start stop : Int64} (hlen : cs.length < 2 ^ 63) (hfit : RangeFits cs start.toInt stop.toInt) :
    Edits g l (fun m p => sdsrange m p start stop) cs (range cs start.toInt stop.toInt) := by
  refine edits_get fun h m p ho hg ht => ?_
  unfold range
  rw [ht.len]
  by_cases hzero : cs.length = 0
  · have hnil := List.length_eq_zero_iff.mp hzero
    rw [if_pos hzero, hnil, List.take_nil, List.drop_nil]
    rw [hnil] at ho
    exact ⟨m, rfl, rfl, ho⟩
  · have hfit := (place_lt_iff hlen stop.toInt_lt).mpr (hfit (by rintro rfl; exact hzero rfl))
    obtain ⟨src, n, hwithin, hle, hrange⟩ := rangeWithin_eq hlen hfit
    rw [if_neg hzero, fromEnd_eq hlen start.le_toInt, fromEnd_eq hlen stop.le_toInt, hwithin, Option.bind_some,
      ← hrange cs rfl]
    obtain ⟨b, hkeep, htext⟩ := ht.keep ((src : Int) ≠ 0 ∧ n ≠ 0) hle (by omega) (by omega)
    exact modify_text ho hg hkeep htext

/-- **sdsrange** keeps the interval between the two indexes, and overflows exactly for the one that is too long. -/
theorem sdsrange_iff {start stop : Int64} (ho : Texts g ((p, cs) :: l) m) (hlen : cs.length < 2 ^ 63) :
    (∃ m', sdsrange m p start stop = some m' ∧ m'.fails = m.fails ∧
      Texts g ((p, range cs start.toInt stop.toInt) :: l) m') ↔ RangeFits cs start.toInt stop.toInt := by
  constructor
  · rintro ⟨m', hr, -⟩ hne
    obtain ⟨h, hg, ht, -⟩ := Owns.head ho
    have hzero : ¬ cs.length = 0 := fun h => hne (List.length_eq_zero_iff.mp h)
    unfold sdsrange at hr
    rw [hg, Option.bind_some, ht.len, if_neg hzero, fromEnd_eq hlen start.le_toInt, fromEnd_eq hlen stop.le_toInt] at hr
    obtain ⟨x, hwithin, -⟩ := Option.bind_eq_some_iff.mp hr
    obtain ⟨n, hn, -⟩ := Option.bind_eq_some_iff.mp (show (rangeLen _ _).bind _ = _ from hwithin)
    refine (place_lt_iff hlen stop.toInt_lt).mp ?_
    unfold rangeLen at hn
    split_ifs at hn with h1 h2
    · omega
    · omega
  · intro hfit
    exact sdsrange_text hlen hfit m p ho

/-- The last two bytes of `"abc"`. -/
theorem sdsrange_iff_bc : (∃ m', sdsrange ⟨Heap.alloc ⟨[]⟩ ⟨.type8, 3, 3, [some 97, some 98, some 99, some 0]⟩, []⟩ 0 (-2) 5 =
      some m' ∧ m'.fails = [] ∧ Texts (⟨[]⟩ : Heap Sdshdr).get [(0, range [97, 98, 99] (-2) 5)] m') ↔
    RangeFits [97, 98, 99] (-2) 5 := by
  have htext : Text ⟨.type8, 3, 3, [some 97, some 98, some 99, some 0]⟩ [97, 98, 99] :=
    ⟨⟨by decide, by decide, by decide, by decide⟩, rfl, rfl⟩
  exact sdsrange_iff (texts_oneString htext []) (by decide)

/-- The loop from `j` on, by induction on the bytes that are left. -/
theorem mapBytes_text {f : Mem → UInt8 → Option UInt8} {φ : UInt8 → UInt8} {j : Nat}
    (hf : ∀ m ds c, Texts g ((p, ds) :: l) m → f m c = some (φ c)) (ho : Texts g ((p, cs) :: l) m)
    (hn : j + n = cs.length) : ∃ m', mapBytes p f n m j = some m' ∧ m'.fails = m.fails ∧
      Texts g ((p, cs.take j ++ (cs.drop j).map φ) :: l) m' := by
  induction n generalizing m cs j with
  | zero =>
    refine ⟨m, rfl, rfl, ?_⟩
    rw [List.drop_eq_nil_of_le (by omega), List.take_of_length_le (by omega), List.map_nil, List.append_nil]
    exact ho
  | succ n ih =>
    have hlt : j < cs.length := by omega
    obtain ⟨h, hg, ht, -⟩ := Owns.head ho
    have hbyte : (Src.sds p 0).byte m j = some cs[j] := by
      have hget := ht.byte hlt
      simpa [Src.byte, Src.bytes, hg] using hget
    obtain ⟨b, hb, htext⟩ := ht.store hlt (φ cs[j])
    obtain ⟨m1, hm, hfails, ho1⟩ := modify_text (f := fun h => h.write j [some (φ cs[j])]) ho hg hb htext
    obtain ⟨m', hloop, hfails', ho'⟩ := ih (j := j + 1) ho1 (by rw [List.length_set]; omega)
    refine ⟨m', ?_, hfails'.trans hfails, ?_⟩
    · rw [mapBytes, hbyte, Option.bind_some, hf m cs _ ho, Option.bind_some, hm]
      exact hloop
    · have htake : (cs.set j (φ cs[j])).take (j + 1) = cs.take j ++ [φ cs[j]] := by
        rw [List.take_set, List.take_add_one, List.getElem?_eq_getElem hlt, List.set_append_right _ _ (by simp)]
        simp [Nat.min_eq_left (Nat.le_of_lt hlt)]
      rw [htake, List.drop_set_of_lt (Nat.lt_succ_self j), List.append_assoc] at ho'
      rw [List.drop_eq_getElem_cons hlt, List.map_cons]
      exact ho'

theorem edits_mapBytes {f : Mem → UInt8 → Option UInt8} {φ : UInt8 → UInt8}
    (hf : ∀ m p ds c, Texts g ((p, ds) :: l) m → f m c = some (φ c)) :
    Edits g l (fun m p => (m.heap.get p).bind fun h => mapBytes p f h.len m 0) cs (cs.map φ) := by
  refine edits_get fun h m p ho hg ht => ?_
  have hloop := mapBytes_text (fun m ds c => hf m p ds c) ho (Nat.zero_add cs.length)
  rw [List.take_zero, List.nil_append, List.drop_zero] at hloop
  rw [ht.len]
  exact hloop

theorem sdstolower_text : Edits g l sdstolower cs (cs.map tolower) := edits_mapBytes fun _ _ _ _ _ => rfl

theorem sdstoupper_text : Edits g l sdstoupper cs (cs.map toupper) := edits_mapBytes fun _ _ _ _ _ => rfl

/-- A byte of the first set becomes the byte at its first place there in the second one. -/
def mapped (fs ts : List UInt8) (c : UInt8) : UInt8 := ((fs.zip ts).lookup c).getD c

theorem mapchar_text {fs ts : List UInt8} {i : Nat} (hsrc : Fixed g src fs) (hdst : Fixed g dst ts) (ho : Texts g l m)
    (hlen : fs.length = ts.length) (hn : i + n = fs.length) (c : UInt8) :
    mapchar src dst m c n i = some (mapped (fs.drop i) (ts.drop i) c) := by
  induction n generalizing i with
  | zero =>
    rw [mapchar, List.drop_eq_nil_of_le (by omega)]
    rfl
  | succ n ih =>
    have hi : i < fs.length := by omega
    rw [mapchar, hsrc.byte ho hi, Option.bind_some, List.drop_eq_getElem_cons hi,
      List.drop_eq_getElem_cons (show i < ts.length by omega)]
    unfold mapped at ih ⊢
    rw [List.zip_cons_cons, List.lookup_cons]
    by_cases hc : c = fs[i]
    · rw [if_pos hc, hdst.byte ho (by omega)]
      simp [hc]
    · have hbeq : (c == fs[i]) = false := beq_eq_false_iff_ne.mpr hc
      rw [if_neg hc, ih (by omega), hbeq]

/-- **sdsmapchars** with two sets of the same size outside of the string. -/
theorem sdsmapchars_text {fs ts : List UInt8} (hsrc : Fixed g src fs) (hdst : Fixed g dst ts)
    (hlen : fs.length = ts.length) :
    Edits g l (fun m p => sdsmapchars m p src dst fs.length) cs (cs.map (mapped fs ts)) := by
  refine edits_mapBytes fun m p ds c ho => ?_
  exact mapchar_text hsrc hdst ho hlen (Nat.zero_add _) c

end Edits

end BeanRaft.Slice
