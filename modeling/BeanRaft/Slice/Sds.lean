import BeanRaft.Slice.LongLong

/-!
# BeanRaft.Slice.Sds — the dynamic strings under a Slice

`sds.cpp` over a heap of blocks.  A block is a string with its header in front (`Sdshdr`), a pointer is the address of
a block.  `sdsMakeRoomFor` may move a string to a new block; the old one is dead then.

* Every function is partial: `none` is undefined behaviour (a dead or null pointer, a byte outside a block, an
  overlapping `memcpy`, an uninitialised byte where its value decides).  A result `some (m, none)` is a returned NULL.
* `size_t` arithmetic wraps, and a header field keeps the low bits that its type has room for.
* `Roomy`: the sizes that `sdsMakeRoomFor` asks for do not wrap.
-/

namespace BeanRaft.Slice

open CInt Lib

abbrev Ptr := Nat

/-! ## Headers -/

inductive SdsType
  | type5
  | type8
  | type16
  | type32
  | type64
  deriving DecidableEq, Repr

/-- The bits of the length field. -/
def SdsType.bits : SdsType → Nat
  | type5 => 5
  | type8 => 8
  | type16 => 16
  | type32 => 32
  | type64 => 64

def sdsHdrSize : SdsType → Nat
  | .type5 => 1
  | .type8 => 3
  | .type16 => 5
  | .type32 => 9
  | .type64 => 17

def sdsReqType (string_size : Nat) : SdsType :=
  if string_size < 2 ^ 5 then .type5
  else if string_size < 2 ^ 8 then .type8
  else if string_size < 2 ^ 16 then .type16
  else if string_size < 2 ^ 32 then .type32
  else .type64

/-- A block seen as a string: its header and the bytes from the string's first on.  Type 5 has no `alloc`. -/
structure Sdshdr where
  type : SdsType
  len : Nat
  alloc : Nat
  buf : List Byte
  deriving DecidableEq, Repr

namespace Sdshdr

variable (h : Sdshdr)

/-- `alloc - len` in the width of the header's fields, as a `size_t`. -/
def sdsavail : Nat :=
  match h.type with
  | .type5 => 0
  | .type32 => uint32 (h.alloc - h.len)
  | _ => uint64 (h.alloc - h.len)

def sdssetlen (newlen : Nat) : Sdshdr := { h with len := newlen % 2 ^ h.type.bits }

def sdsinclen (inc : Nat) : Sdshdr := { h with len := (h.len + inc) % 2 ^ h.type.bits }

def sdssetalloc (newlen : Nat) : Sdshdr :=
  match h.type with
  | .type5 => h
  | _ => { h with alloc := newlen % 2 ^ h.type.bits }

def write (off : Nat) (bs : List Byte) : Option Sdshdr :=
  (Lib.write h.buf off bs).map fun buf => { h with buf := buf }

/-- The block resized to `size` bytes, header included; a new part is uninitialised. -/
def resize (size : Nat) : Option Sdshdr :=
  if sdsHdrSize h.type ≤ size then
    let n := size - sdsHdrSize h.type
    some { h with buf := h.buf.take n ++ List.replicate (n - h.buf.length) none }
  else none

end Sdshdr

/-! ## Memory -/

/-- The heap, and which of the coming allocations fail. -/
structure Mem where
  heap : Heap Sdshdr
  fails : List Bool
  deriving DecidableEq, Repr

namespace Mem

variable (m : Mem)

/-- A new block of `size` bytes, whose first ones are to hold a header of `type`. -/
def malloc (type : SdsType) (size : Nat) : Option (Mem × Option Ptr) :=
  match m.fails with
  | true :: fails => some (⟨m.heap, fails⟩, none)
  | fails => (Sdshdr.resize ⟨type, 0, 0, []⟩ size).map fun b => (⟨m.heap.alloc b, fails.tail⟩, some m.heap.next)

/-- The old block is dead after a `realloc` that succeeds. -/
def realloc (p : Ptr) (size : Nat) : Option (Mem × Option Ptr) :=
  match m.fails with
  | true :: fails => some (⟨m.heap, fails⟩, none)
  | fails => (m.heap.get p).bind fun h => (h.resize size).map fun b =>
      (⟨(m.heap.put p none).alloc b, fails.tail⟩, some m.heap.next)

def modify (p : Ptr) (f : Sdshdr → Option Sdshdr) : Option Mem := (m.heap.modify p f).map fun heap => ⟨heap, m.fails⟩

/-- `sdsfree`; nothing is done for NULL. -/
def sdsfree : Option Ptr → Option Mem
  | none => some m
  | some p => (m.heap.free p).map fun heap => ⟨heap, m.fails⟩

end Mem

/-- Goes on with a pointer that is not NULL. -/
def ifNotNull (r : Option (Mem × Option Ptr)) (k : Mem → Ptr → Option (Mem × Option Ptr)) : Option (Mem × Option Ptr) :=
  r.bind fun
    | (m, none) => some (m, none)
    | (m, some p) => k m p

/-- A `const char *` argument: NULL, the pointer `SDS_NOINIT`, an array of the caller, or a place in a string. -/
inductive Src
  | null
  | noinit
  | ext (bytes : List Byte)
  | sds (p : Ptr) (off : Nat)
  deriving DecidableEq, Repr

def SDS_NOINIT : List Byte := ("SDS_NOINIT".toList.map fun c => some (UInt8.ofNat c.toNat)) ++ [some 0]

/-- The number of bytes before the first 0. -/
def strlenOf : List Byte → Option Nat
  | [] => none
  | none :: _ => none
  | some c :: bs => if c = 0 then some 0 else (strlenOf bs).map (· + 1)

namespace Src

/-- The bytes from the pointer to the end of the object it points into. -/
def bytes (m : Mem) : Src → Option (List Byte)
  | null => none
  | noinit => some SDS_NOINIT
  | ext bs => some bs
  | sds p off => (m.heap.get p).bind fun h => if off ≤ h.buf.length then some (h.buf.drop off) else none

/-- The `n` bytes that a `memcpy` reads; nothing is read when `n` is 0. -/
def read (m : Mem) (t : Src) (n : Nat) : Option (List Byte) :=
  if n = 0 then some [] else (t.bytes m).bind fun bs => Lib.read bs 0 n

def strlen (m : Mem) (t : Src) : Option Nat := (t.bytes m).bind strlenOf

/-- The pointer is into the block at `p`. -/
def inside (p : Ptr) : Src → Bool
  | sds q _ => q = p
  | _ => false

/-- The `n` bytes at the pointer and the `n` bytes at `off` in the block `p` overlap. -/
def meets (p : Ptr) (off n : Nat) : Src → Bool
  | sds q o => q = p ∧ o < off + n ∧ off < o + n
  | _ => false

end Src

/-- `memcpy(s + off, t, n)` -/
def Mem.memcpy (m : Mem) (s : Ptr) (off : Nat) (t : Src) (n : Nat) : Option Mem :=
  if t.meets s off n then none else (t.read m n).bind fun bs => m.modify s fun h => h.write off bs

/-! ## sds.cpp -/

/-- `sdsnewlen` (line 93).  `memset` has no block to clear when the allocation failed. -/
def sdsnewlen (m : Mem) (init : Src) (initlen : Nat) : Option (Mem × Option Ptr) :=
  let type := if sdsReqType initlen = .type5 ∧ initlen = 0 then .type8 else sdsReqType initlen
  if m.fails.head? = some true ∧ init = .null then none
  else
    ifNotNull (m.malloc type ((sdsHdrSize type + initlen + 1) % 2 ^ 64)) fun m s =>
      (m.modify s fun h =>
        let buf := if init = .null then List.replicate h.buf.length (some 0) else h.buf
        some (({ h with buf := buf }.sdssetlen initlen).sdssetalloc initlen)).bind fun m =>
      (if initlen ≠ 0 ∧ init ≠ .null ∧ init ≠ .noinit then m.memcpy s 0 init initlen else some m).bind fun m =>
      (m.modify s fun h => h.write initlen [some 0]).map (·, some s)

def sdsempty (m : Mem) : Option (Mem × Option Ptr) := sdsnewlen m (.ext [some 0]) 0

def sdsnew (m : Mem) (init : Src) : Option (Mem × Option Ptr) :=
  if init = .null then sdsnewlen m init 0 else (init.strlen m).bind fun initlen => sdsnewlen m init initlen

def SDS_MAX_PREALLOC : Nat := 1024 * 1024

/-- The new size of `sdsMakeRoomFor`: twice what is needed, or 1 MiB more. -/
def roomLen (len addlen : Nat) : Nat :=
  if (len + addlen) % 2 ^ 64 < SDS_MAX_PREALLOC then (len + addlen) % 2 ^ 64 * 2
  else ((len + addlen) % 2 ^ 64 + SDS_MAX_PREALLOC) % 2 ^ 64

/-- Type 5 cannot remember empty space. -/
def roomType (newlen : Nat) : SdsType := if sdsReqType newlen = .type5 then .type8 else sdsReqType newlen

/-- `sdsMakeRoomFor` (line 208) over the `s_realloc` of an allocator. -/
def sdsMakeRoomWith (s_realloc : Mem → Ptr → Nat → Option (Mem × Option Ptr)) (m : Mem) (s : Ptr) (addlen : Nat) :
    Option (Mem × Option Ptr) :=
  (m.heap.get s).bind fun h =>
    if addlen ≤ h.sdsavail then some (m, some s)
    else
      let newlen := roomLen h.len addlen
      let type := roomType newlen
      let size := (sdsHdrSize type + newlen + 1) % 2 ^ 64
      if h.type = type then
        ifNotNull (s_realloc m s size) fun m s =>
          (m.modify s fun h => some (h.sdssetalloc newlen)).map (·, some s)
      else
        ifNotNull (m.malloc type size) fun m newsh =>
          -- the header moves forward, so the text and its null term are copied
          (m.memcpy newsh 0 (.sds s 0) (h.len + 1)).bind fun m =>
          (m.sdsfree (some s)).bind fun m =>
          (m.modify newsh fun b => some ((b.sdssetlen h.len).sdssetalloc newlen)).map (·, some newsh)

/-- With a `realloc` that moves the block. -/
def sdsMakeRoomFor : Mem → Ptr → Nat → Option (Mem × Option Ptr) := sdsMakeRoomWith Mem.realloc

/-- `sdscatlen` (line 397) -/
def sdscatlen (m : Mem) (s : Ptr) (t : Src) (len : Nat) : Option (Mem × Option Ptr) :=
  (m.heap.get s).bind fun h =>
    ifNotNull (sdsMakeRoomFor m s len) fun m s =>
      (m.memcpy s h.len t len).bind fun m =>
      (m.modify s fun b => (b.sdssetlen ((h.len + len) % 2 ^ 64)).write ((h.len + len) % 2 ^ 64) [some 0]).map
        (·, some s)

def sdscat (m : Mem) (s : Ptr) (t : Src) : Option (Mem × Option Ptr) :=
  (t.strlen m).bind fun len => sdscatlen m s t len

/-! ## Sizes -/

section Sizes

variable {n len addlen : Nat}

theorem sdsReqType_lt (h : n < 2 ^ 64) : n < 2 ^ (sdsReqType n).bits := by
  unfold sdsReqType
  split_ifs <;> assumption

theorem roomType_ne (n : Nat) : roomType n ≠ .type5 := by
  unfold roomType
  split_ifs with h
  · decide
  · exact h

theorem roomType_lt (h : n < 2 ^ 64) : n < 2 ^ (roomType n).bits := by
  have hreq := sdsReqType_lt h
  unfold roomType
  split_ifs with h5
  · rw [h5] at hreq
    exact Nat.lt_trans hreq (by decide)
  · exact hreq

theorem roomLen_lt (len addlen : Nat) : roomLen len addlen < 2 ^ 64 := by
  unfold roomLen SDS_MAX_PREALLOC
  split_ifs <;> omega

theorem sdsHdrSize_le (t : SdsType) : 1 ≤ sdsHdrSize t ∧ sdsHdrSize t ≤ 17 := by
  cases t <;> decide

theorem roomType_large (h : 2 ^ 32 ≤ n) : roomType n = .type64 := by
  have h1 : ¬ n < 2 ^ 5 := by omega
  have h2 : ¬ n < 2 ^ 8 := by omega
  have h3 : ¬ n < 2 ^ 16 := by omega
  have h4 : ¬ n < 2 ^ 32 := by omega
  have hreq : sdsReqType n = .type64 := by
    unfold sdsReqType
    rw [if_neg h1, if_neg h2, if_neg h3, if_neg h4]
  unfold roomType
  rw [hreq]
  rfl

/-- The sizes that `sdsMakeRoomFor` asks for do not wrap. -/
def Roomy (len addlen : Nat) : Prop := len + addlen + SDS_MAX_PREALLOC + 18 < 2 ^ 64

instance (len addlen : Nat) : Decidable (Roomy len addlen) := inferInstanceAs (Decidable (_ < _))

theorem Roomy.mono {addlen' : Nat} (h : Roomy len addlen) (hle : addlen' ≤ addlen) : Roomy len addlen' := by
  unfold Roomy at *
  omega

theorem Roomy.roomLen (h : Roomy len addlen) :
    len + addlen ≤ roomLen len addlen ∧ roomLen len addlen + 18 < 2 ^ 64 := by
  unfold Roomy SDS_MAX_PREALLOC at h
  unfold Slice.roomLen SDS_MAX_PREALLOC
  have hmod : (len + addlen) % 2 ^ 64 = len + addlen := Nat.mod_eq_of_lt (by omega)
  rw [hmod]
  split_ifs <;> omega

/-- The block is as large as it is meant to be. -/
theorem Roomy.size (h : Roomy len addlen) (t : SdsType) :
    (sdsHdrSize t + Slice.roomLen len addlen + 1) % 2 ^ 64 = sdsHdrSize t + Slice.roomLen len addlen + 1 := by
  have hlen := h.roomLen.2
  have hhdr := sdsHdrSize_le t
  exact Nat.mod_eq_of_lt (by omega)

/-- When a size wraps, the block is too small for the string and what is appended. -/
theorem size_of_not_roomy (h : ¬ Roomy len addlen) :
    (sdsHdrSize (roomType (roomLen len addlen)) + roomLen len addlen + 1) % 2 ^ 64 <
      sdsHdrSize (roomType (roomLen len addlen)) + len + addlen := by
  have hhdr := sdsHdrSize_le (roomType (roomLen len addlen))
  unfold Roomy SDS_MAX_PREALLOC at h
  by_cases hlarge : 2 ^ 32 ≤ roomLen len addlen
  · rw [roomType_large hlarge] at hhdr ⊢
    show (17 + roomLen len addlen + 1) % 2 ^ 64 < 17 + len + addlen
    revert hlarge
    unfold roomLen SDS_MAX_PREALLOC
    split_ifs <;> omega
  · revert hlarge
    generalize sdsHdrSize (roomType (roomLen len addlen)) = k at hhdr ⊢
    unfold roomLen SDS_MAX_PREALLOC
    split_ifs <;> omega

end Sizes

end BeanRaft.Slice
