import BeanRaft.Slice.Sds

/-!
# BeanRaft.Slice.Strings — well-formed strings, and what making room does to them

* `strlenOf_get`, `strlenOf_congr`, …: what decides the length of a C string.
* `Sound`, `Terminated`: what holds of a string between two calls.
* `malloc_some`, `modify_some`, …: what is known after a memory operation that returned, with an allocator that
  succeeds.  `modify_isSome`, …: when it returns.
* `makeRoom_cases`, `makeRoom_isSome`: the same for `sdsMakeRoomFor`.
-/

namespace BeanRaft.Slice

open CInt Lib

/-! ## The memory operations -/

section Memory

variable {m m' : Mem} {p q : Ptr} {r : Option Ptr} {h b : Sdshdr} {size n : Nat}

theorem resize_some (hr : h.resize size = some b) :
    b.type = h.type ∧ b.len = h.len ∧ b.alloc = h.alloc ∧ sdsHdrSize h.type + b.buf.length = size ∧
      ∀ k ≤ h.buf.length, k ≤ b.buf.length → b.buf.take k = h.buf.take k := by
  unfold Sdshdr.resize at hr
  split_ifs at hr with hle
  obtain rfl := Option.some.inj hr
  refine ⟨rfl, rfl, rfl, ?_, fun k hk hkb => ?_⟩
  · simp only [List.length_append, List.length_take, List.length_replicate]
    omega
  · simp only [List.length_append, List.length_take, List.length_replicate] at hkb
    rw [List.take_append_of_le_length (by rw [List.length_take]; omega), List.take_take]
    congr 1
    omega

theorem resize_isSome (hle : sdsHdrSize h.type ≤ size) : ∃ b, h.resize size = some b := ⟨_, if_pos hle⟩

theorem malloc_eq (hf : m.fails = []) (type : SdsType) (size : Nat) : m.malloc type size =
    (Sdshdr.resize ⟨type, 0, 0, []⟩ size).map fun b => (⟨m.heap.alloc b, []⟩, some m.heap.next) := by
  simp [Mem.malloc, hf]

theorem realloc_eq (hf : m.fails = []) (hg : m.heap.get p = some h) (size : Nat) : m.realloc p size =
    (h.resize size).map fun b => (⟨(m.heap.put p none).alloc b, []⟩, some m.heap.next) := by
  simp [Mem.realloc, hf, hg]

theorem malloc_some {type : SdsType} (hf : m.fails = []) (hr : m.malloc type size = some (m', r)) :
    ∃ b, Sdshdr.resize ⟨type, 0, 0, []⟩ size = some b ∧ r = some m.heap.next ∧ m'.fails = [] ∧
      m'.heap.get = Function.update m.heap.get m.heap.next (some b) := by
  rw [malloc_eq hf] at hr
  obtain ⟨b, hb, he⟩ := Option.map_eq_some_iff.mp hr
  cases he
  exact ⟨b, hb, rfl, rfl, Heap.get_alloc⟩

theorem malloc_isSome {type : SdsType} (hf : m.fails = []) (hle : sdsHdrSize type ≤ size) :
    ∃ m', m.malloc type size = some (m', some m.heap.next) := by
  obtain ⟨b, hb⟩ := resize_isSome (h := ⟨type, 0, 0, []⟩) hle
  refine ⟨⟨m.heap.alloc b, []⟩, ?_⟩
  rw [malloc_eq hf, hb]
  rfl

theorem realloc_some (hf : m.fails = []) (hg : m.heap.get p = some h) (hr : m.realloc p size = some (m', r)) :
    ∃ b, h.resize size = some b ∧ r = some m.heap.next ∧ m'.fails = [] ∧
      Moved m.heap.get p m.heap.next b m'.heap.get := by
  rw [realloc_eq hf hg] at hr
  obtain ⟨b, hb, he⟩ := Option.map_eq_some_iff.mp hr
  cases he
  refine ⟨b, hb, rfl, rfl, .inr Heap.get_next, ?_⟩
  rw [Heap.get_alloc, Heap.next_put, Heap.get_put (Heap.lt_next hg)]

theorem modify_some {f : Sdshdr → Option Sdshdr} (hr : m.modify p f = some m') :
    ∃ b b', m.heap.get p = some b ∧ f b = some b' ∧ m'.fails = m.fails ∧
      m'.heap.get = Function.update m.heap.get p (some b') := by
  unfold Mem.modify at hr
  cases hg : m.heap.get p with
  | none =>
    rw [Heap.modify_of_dead hg] at hr
    simp at hr
  | some b =>
    rw [Heap.modify_of_get hg] at hr
    cases hf : f b with
    | none =>
      rw [hf] at hr
      simp at hr
    | some b' =>
      rw [hf] at hr
      cases hr
      exact ⟨b, b', rfl, hf, rfl, Heap.get_put (Heap.lt_next hg)⟩

/-- The same when the block is known. -/
theorem modify_get {f : Sdshdr → Option Sdshdr} (hg : m.heap.get p = some b) (hr : m.modify p f = some m') :
    ∃ b', f b = some b' ∧ m'.fails = m.fails ∧ m'.heap.get = Function.update m.heap.get p (some b') := by
  obtain ⟨b0, b', hb0, hb', hf, hget⟩ := modify_some hr
  obtain rfl := Option.some.inj (hg.symm.trans hb0)
  exact ⟨b', hb', hf, hget⟩

theorem modify_isSome {f : Sdshdr → Option Sdshdr} (hg : m.heap.get p = some b) (hf : f b = some h) :
    ∃ m', m.modify p f = some m' := by
  unfold Mem.modify
  rw [Heap.modify_of_get hg, hf]
  exact ⟨_, rfl⟩

theorem sdsfree_some (hr : m.sdsfree (some p) = some m') :
    (∃ b, m.heap.get p = some b) ∧ m'.fails = m.fails ∧ m'.heap.get = Function.update m.heap.get p none := by
  obtain ⟨heap, hfree, rfl⟩ := Option.map_eq_some_iff.mp (show (m.heap.free p).map _ = some m' from hr)
  cases hg : m.heap.get p with
  | none =>
    simp [Heap.free, hg] at hfree
  | some b =>
    rw [Heap.free_of_get hg] at hfree
    obtain rfl := Option.some.inj hfree
    exact ⟨⟨b, rfl⟩, rfl, Heap.get_put (Heap.lt_next hg)⟩

theorem sdsfree_isSome (hg : m.heap.get p = some b) : ∃ m', m.sdsfree (some p) = some m' := by
  show ∃ m', (m.heap.free p).map _ = some m'
  rw [Heap.free_of_get hg]
  exact ⟨_, rfl⟩

theorem hdr_write_some {off : Nat} {bs : List Byte} (hw : h.write off bs = some b) :
    b.type = h.type ∧ b.len = h.len ∧ b.alloc = h.alloc ∧ Lib.write h.buf off bs = some b.buf := by
  unfold Sdshdr.write at hw
  obtain ⟨buf, hbuf, rfl⟩ := Option.map_eq_some_iff.mp hw
  exact ⟨rfl, rfl, rfl, hbuf⟩

theorem hdr_write_isSome {off : Nat} {bs : List Byte} (hle : off + bs.length ≤ h.buf.length) :
    ∃ b, h.write off bs = some b := by
  obtain ⟨buf, hbuf⟩ := write_isSome hle
  exact ⟨_, by rw [Sdshdr.write, hbuf]; rfl⟩

theorem read_sds (hg : m.heap.get p = some h) (hn : 0 < n) : (Src.sds p 0).read m n = Lib.read h.buf 0 n := by
  simp [Src.read, Src.bytes, hg, Nat.pos_iff_ne_zero.mp hn]

theorem memcpy_some {off : Nat} {t : Src} (hr : m.memcpy p off t n = some m') :
    t.meets p off n = false ∧ ∃ bs b b', t.read m n = some bs ∧ m.heap.get p = some b ∧ b.write off bs = some b' ∧
      m'.fails = m.fails ∧ m'.heap.get = Function.update m.heap.get p (some b') := by
  unfold Mem.memcpy at hr
  split_ifs at hr with hmeet
  obtain ⟨bs, hbs, hm⟩ := Option.bind_eq_some_iff.mp hr
  obtain ⟨b, b', hb, hb', hf, hget⟩ := modify_some hm
  exact ⟨Bool.eq_false_iff.mpr hmeet, bs, b, b', hbs, hb, hb', hf, hget⟩

theorem memcpy_isSome {off : Nat} {t : Src} {bs : List Byte} (hmeet : t.meets p off n = false)
    (hbs : t.read m n = some bs) (hg : m.heap.get p = some h) (hle : off + bs.length ≤ h.buf.length) :
    ∃ m', m.memcpy p off t n = some m' := by
  unfold Mem.memcpy
  rw [hmeet, hbs]
  obtain ⟨b, hb⟩ := hdr_write_isSome hle
  exact modify_isSome hg hb

theorem ifNotNull_inv {c : Option (Mem × Option Ptr)} {k : Mem → Ptr → Option (Mem × Option Ptr)}
    {x : Mem × Option Ptr} (hr : ifNotNull c k = some x) :
    ∃ m1 o, c = some (m1, o) ∧ (o = none ∧ x = (m1, none) ∨ ∃ p, o = some p ∧ k m1 p = some x) := by
  obtain ⟨⟨m1, o⟩, hc, hk⟩ := Option.bind_eq_some_iff.mp hr
  refine ⟨m1, o, hc, ?_⟩
  cases o with
  | none => exact .inl ⟨rfl, (Option.some.inj hk).symm⟩
  | some p => exact .inr ⟨p, rfl, hk⟩

/-- An allocation that succeeds goes on with the new block. -/
theorem ifNotNull_malloc {type : SdsType} {k : Mem → Ptr → Option (Mem × Option Ptr)} {x : Mem × Option Ptr}
    (hf : m.fails = []) (hr : ifNotNull (m.malloc type size) k = some x) :
    ∃ m1, m.malloc type size = some (m1, some m.heap.next) ∧ k m1 m.heap.next = some x := by
  obtain ⟨m1, o, h1, ho⟩ := ifNotNull_inv hr
  obtain ⟨-, -, rfl, -⟩ := malloc_some hf h1
  obtain ⟨q, hq, hk⟩ := ho.resolve_left fun hnull => Option.some_ne_none _ hnull.1
  obtain rfl := Option.some.inj hq
  exact ⟨m1, h1, hk⟩

theorem ifNotNull_some {c : Option (Mem × Option Ptr)} {k : Mem → Ptr → Option (Mem × Option Ptr)}
    (hc : c = some (m, some p)) : ifNotNull c k = k m p := by
  rw [hc]
  rfl

end Memory

/-! ## C strings -/

section Strlen

variable {l l' : List Byte} {n n' : Nat} {fs : List UInt8}

theorem strlenOf_get (h : strlenOf l = some n) : l[n]? = some (some 0) := by
  induction l generalizing n with
  | nil => cases h
  | cons b l ih =>
    cases b with
    | none => cases h
    | some c =>
      unfold strlenOf at h
      split_ifs at h with hc
      · obtain rfl := Option.some.inj h
        rw [hc]
        rfl
      · obtain ⟨k, hk, rfl⟩ := Option.map_eq_some_iff.mp h
        exact ih hk

theorem strlenOf_le_null (h : strlenOf l = some n) {j : Nat} (hj : l[j]? = some (some 0)) : n ≤ j := by
  induction l generalizing n j with
  | nil => cases h
  | cons b l ih =>
    cases b with
    | none => cases h
    | some c =>
      unfold strlenOf at h
      split_ifs at h with hc
      · obtain rfl := Option.some.inj h
        exact Nat.zero_le j
      · obtain ⟨k, hk, rfl⟩ := Option.map_eq_some_iff.mp h
        cases j with
        | zero =>
          rw [List.getElem?_cons_zero] at hj
          exact absurd (Option.some.inj (Option.some.inj hj)) hc
        | succ j => exact Nat.succ_le_succ (ih hk hj)

/-- The length depends on the bytes up to the null term only. -/
theorem strlenOf_congr (h : strlenOf l = some n) (htake : l'.take (n + 1) = l.take (n + 1)) : strlenOf l' = some n := by
  induction l generalizing n l' with
  | nil => cases h
  | cons b l ih =>
    cases l' with
    | nil => cases htake
    | cons b' l' =>
      rw [List.take_succ_cons, List.take_succ_cons] at htake
      obtain ⟨rfl, htail⟩ := List.cons.inj htake
      cases b' with
      | none => cases h
      | some c =>
        unfold strlenOf at h ⊢
        split_ifs at h ⊢ with hc
        · exact h
        · obtain ⟨k, hk, rfl⟩ := Option.map_eq_some_iff.mp h
          rw [ih hk htail]
          rfl

/-- Where the bytes before the null term are the same, the length is not less. -/
theorem strlenOf_mono (h : strlenOf l = some n) (htake : l'.take n = l.take n) (h' : strlenOf l' = some n') : n ≤ n' := by
  by_contra hlt
  have hget : l[n']? = some (some 0) := by
    rw [← List.getElem?_take_of_lt (Nat.lt_of_not_le hlt), ← htake, List.getElem?_take_of_lt (Nat.lt_of_not_le hlt)]
    exact strlenOf_get h'
  exact hlt (strlenOf_le_null h hget)

theorem strlenOf_text (h0 : 0 ∉ fs) (rest : List Byte) : strlenOf (fs.map some ++ some 0 :: rest) = some fs.length := by
  induction fs with
  | nil => rfl
  | cons c fs ih =>
    obtain ⟨hc, hfs⟩ := not_or.mp (List.mem_cons.not.mp h0)
    show (if c = 0 then some 0 else (strlenOf (fs.map some ++ some 0 :: rest)).map (· + 1)) = _
    rw [if_neg (Ne.symm hc), ih hfs]
    rfl

end Strlen

/-! ## Strings between two calls -/

/-- The header of a string agrees with its block. -/
structure Sound (h : Sdshdr) : Prop where
  len_lt : h.len < 2 ^ h.type.bits
  len_le : h.type ≠ .type5 → h.len ≤ h.alloc
  alloc_lt : h.type ≠ .type5 → h.alloc < 2 ^ h.type.bits
  room : h.len + h.sdsavail < h.buf.length

/-- The null term is where the string ends. -/
def Terminated (h : Sdshdr) : Prop := h.buf[h.len]? = some (some 0)

/-- The string at `s` is replaced by a sound and terminated one at the pointer returned. -/
def Replaced (m : Mem) (s : Ptr) (m' : Mem) (r : Option Ptr) : Prop :=
  ∃ q b, r = some q ∧ m'.fails = [] ∧ Moved m.heap.get s q b m'.heap.get ∧ Sound b ∧ Terminated b

theorem Replaced.after {m m1 m' : Mem} {s q : Ptr} {r : Option Ptr} {b : Sdshdr}
    (hmv : Moved m.heap.get s q b m1.heap.get) (h : Replaced m1 q m' r) : Replaced m s m' r := by
  obtain ⟨q', b', hr, hf, hmv', hs, ht⟩ := h
  exact ⟨q', b', hr, hf, hmv.comp hmv', hs, ht⟩

section Strings

variable {h b : Sdshdr} {n : Nat}

theorem sdsavail_type5 (ht : h.type = .type5) : h.sdsavail = 0 := by
  unfold Sdshdr.sdsavail
  rw [ht]

theorem sdsavail_eq (ht : h.type ≠ .type5) (hle : h.len ≤ h.alloc) (hlt : h.alloc < 2 ^ h.type.bits) :
    h.sdsavail = h.alloc - h.len := by
  have h64 : h.alloc < 2 ^ 64 := Nat.lt_of_lt_of_le hlt (Nat.pow_le_pow_right (by decide) (by cases h.type <;> decide))
  have hsub : uint64 ((h.alloc : Int) - h.len) = h.alloc - h.len := by
    rw [uint64_of_range (by omega) (by omega)]
    omega
  unfold Sdshdr.sdsavail
  cases htype : h.type with
  | type5 => exact absurd htype ht
  | type32 =>
    rw [htype] at hlt
    have hlt32 : h.alloc < 2 ^ 32 := hlt
    show uint32 ((h.alloc : Int) - h.len) = h.alloc - h.len
    rw [uint32_of_range (by omega) (by omega)]
    omega
  | type8 => exact hsub
  | type16 => exact hsub
  | type64 => exact hsub

/-- The length grows into the free space. -/
theorem Sound.grow (hs : Sound h) (hn : n ≤ h.sdsavail) {len : Nat} {buf : List Byte} (hlen : len = h.len + n)
    (hbuf : buf.length = h.buf.length) : Sound { h with len := len % 2 ^ h.type.bits, buf := buf } ∧
      len % 2 ^ h.type.bits = len := by
  subst hlen
  by_cases ht : h.type = .type5
  · have hzero := sdsavail_type5 ht
    rw [hzero] at hn
    obtain rfl : n = 0 := Nat.le_zero.mp hn
    have hmod : (h.len + 0) % 2 ^ h.type.bits = h.len := Nat.mod_eq_of_lt hs.len_lt
    rw [hmod]
    refine ⟨⟨hs.len_lt, hs.len_le, hs.alloc_lt, ?_⟩, rfl⟩
    have hroom := hs.room
    rw [hzero] at hroom
    rw [sdsavail_type5 (h := { h with len := h.len, buf := buf }) ht]
    show h.len + 0 < buf.length
    omega
  · have hle := hs.len_le ht
    have hlt := hs.alloc_lt ht
    have havail := sdsavail_eq ht hle hlt
    have hroom := hs.room
    have hmod : (h.len + n) % 2 ^ h.type.bits = h.len + n := Nat.mod_eq_of_lt (by omega)
    rw [hmod]
    refine ⟨⟨?_, fun _ => ?_, fun _ => hlt, ?_⟩, rfl⟩
    · show h.len + n < 2 ^ h.type.bits
      omega
    · show h.len + n ≤ h.alloc
      omega
    · rw [sdsavail_eq (h := { h with len := h.len + n, buf := buf }) ht (by show h.len + n ≤ h.alloc; omega) hlt]
      show h.len + n + (h.alloc - (h.len + n)) < buf.length
      omega

end Strings

/-! ## sdsMakeRoomFor -/

/-- `b` is the block to which `sdsMakeRoomFor` moves the string `h` to make room for `n` bytes. -/
structure Grown (h : Sdshdr) (n : Nat) (b : Sdshdr) : Prop where
  type : b.type = roomType (roomLen h.len n)
  len : b.len = h.len
  len_lt : b.len < 2 ^ b.type.bits
  alloc : b.alloc = roomLen h.len n
  size : sdsHdrSize b.type + b.buf.length = (sdsHdrSize b.type + roomLen h.len n + 1) % 2 ^ 64
  text : ∀ k ≤ h.len + 1, k ≤ b.buf.length → k ≤ h.buf.length → b.buf.take k = h.buf.take k

section MakeRoom

variable {m m' : Mem} {s q : Ptr} {r : Option Ptr} {h b : Sdshdr} {n : Nat}

theorem sdssetalloc_eq (ht : h.type ≠ .type5) (hn : n < 2 ^ h.type.bits) : h.sdssetalloc n = { h with alloc := n } := by
  unfold Sdshdr.sdssetalloc
  rw [Nat.mod_eq_of_lt hn]
  split
  · exact absurd ‹_› ht
  · rfl

/-- The new block has the room when its size does not wrap. -/
theorem Grown.sound (hg : Grown h n b) (hroomy : Roomy h.len n) : Sound b ∧ n ≤ b.sdsavail := by
  have ht : b.type ≠ .type5 := hg.type ▸ roomType_ne _
  have hlt : b.alloc < 2 ^ b.type.bits := by
    rw [hg.alloc, hg.type]
    exact roomType_lt (roomLen_lt _ _)
  have hle : b.len ≤ b.alloc := by
    rw [hg.alloc, hg.len]
    exact Nat.le_trans (Nat.le_add_right _ _) hroomy.roomLen.1
  have havail := sdsavail_eq ht hle hlt
  have hsize := hg.size
  rw [hroomy.size] at hsize
  have hlen := hg.len
  have halloc := hg.alloc
  have hroom := hroomy.roomLen.1
  exact ⟨⟨hg.len_lt, fun _ => hle, fun _ => hlt, by omega⟩, by omega⟩

/-- Otherwise the string and what is appended do not fit. -/
theorem Grown.small (hg : Grown h n b) (hroomy : ¬ Roomy h.len n) : b.buf.length < h.len + n := by
  have hsize := size_of_not_roomy hroomy
  rw [← hg.type, ← hg.size] at hsize
  omega

/-- A block resized under the same header. -/
theorem Grown.of_resized (htype : h.type = roomType (roomLen h.len n)) (hl : h.len < 2 ^ h.type.bits)
    (hb : h.resize ((sdsHdrSize h.type + roomLen h.len n + 1) % 2 ^ 64) = some b) :
    Grown h n (b.sdssetalloc (roomLen h.len n)) := by
  obtain ⟨hty, hlen, -, hsize, htext⟩ := resize_some hb
  have htb : b.type = roomType (roomLen h.len n) := hty.trans htype
  rw [sdssetalloc_eq (htb ▸ roomType_ne _) (htb ▸ roomType_lt (roomLen_lt _ _))]
  refine ⟨htb, hlen, ?_, rfl, ?_, fun k _ hkb hkh => htext k hkh hkb⟩
  · show b.len < 2 ^ b.type.bits
    rw [hlen, hty]
    exact hl
  · show sdsHdrSize b.type + b.buf.length = (sdsHdrSize b.type + _ + 1) % 2 ^ 64
    rw [hty]
    exact hsize

/-- A new block with the text copied into it. -/
theorem Grown.of_copied (htype : b.type = roomType (roomLen h.len n))
    (hsize : sdsHdrSize b.type + b.buf.length = (sdsHdrSize b.type + roomLen h.len n + 1) % 2 ^ 64)
    (hle : h.len + 1 ≤ b.buf.length) (htext : b.buf.take (h.len + 1) = h.buf.take (h.len + 1)) :
    Grown h n ((b.sdssetlen h.len).sdssetalloc (roomLen h.len n)) := by
  have hlt : roomLen h.len n < 2 ^ b.type.bits := htype ▸ roomType_lt (roomLen_lt _ _)
  have hmod := Nat.mod_le (sdsHdrSize b.type + roomLen h.len n + 1) (2 ^ 64)
  have hlenlt : h.len < 2 ^ b.type.bits := Nat.lt_of_le_of_lt (by omega) hlt
  rw [sdssetalloc_eq (h := b.sdssetlen h.len) (htype ▸ roomType_ne _) hlt]
  refine ⟨htype, Nat.mod_eq_of_lt hlenlt, Nat.mod_lt _ (Nat.pow_pos (by decide)), rfl, hsize, fun k hk _ _ => ?_⟩
  have hmin := congrArg (List.take k) htext
  rw [List.take_take, List.take_take, Nat.min_eq_left hk] at hmin
  exact hmin

/-- The first `n` bytes of a string copied to a new block, and the old one freed. -/
theorem copy_some {m1 m2 m3 : Mem} {type : SdsType} {size : Nat} (hf : m.fails = []) (hg : m.heap.get s = some h)
    (hn : 0 < n) (h1 : m.malloc type size = some (m1, some q)) (hcpy : m1.memcpy q 0 (.sds s 0) n = some m2)
    (hfree : m2.sdsfree (some s) = some m3) :
    m.heap.get q = none ∧ m3.fails = [] ∧ ∃ b, Moved m.heap.get s q b m3.heap.get ∧ b.type = type ∧
      sdsHdrSize type + b.buf.length = size ∧ n ≤ b.buf.length ∧ b.buf.take n = h.buf.take n := by
  obtain ⟨b0, hb0, hq, hf1, hget1⟩ := malloc_some hf h1
  obtain rfl := Option.some.inj hq
  obtain ⟨-, bs, b0', b1, hread, hb0', hw, hf2, hget2⟩ := memcpy_some hcpy
  obtain ⟨-, hf3, hget3⟩ := sdsfree_some hfree
  have hne : s ≠ m.heap.next := Heap.ne_next hg
  rw [hget1, Function.update_self] at hb0'
  obtain rfl := Option.some.inj hb0'
  rw [read_sds (by rw [hget1, Function.update_of_ne hne, hg]) hn] at hread
  obtain ⟨hty, -, -, hsize, -⟩ := resize_some hb0
  obtain ⟨hty1, -, -, hbuf⟩ := hdr_write_some hw
  obtain ⟨hfit, hbs, hbslen⟩ := read_some hread
  have hbl : b1.buf.length = b0.buf.length := length_write hbuf
  refine ⟨Heap.get_next, hf3.trans (hf2.trans hf1), b1, ⟨.inr Heap.get_next, ?_⟩, hty1.trans hty, ?_, ?_, ?_⟩
  · rw [hget3, hget2, hget1, Function.update_idem, Function.update_comm (Ne.symm hne)]
  · rw [hbl]
    exact hsize
  · have := (write_some hbuf).1
    omega
  · have htake := take_write hbuf
    rwa [hbslen, Nat.zero_add, List.take_zero, List.nil_append, hbs, List.drop_zero] at htake

/-- What `sdsMakeRoomFor` did: nothing when there is room, else a move. -/
theorem makeRoom_cases (hf : m.fails = []) (hg : m.heap.get s = some h) (hl : h.len < 2 ^ h.type.bits)
    (hr : sdsMakeRoomFor m s n = some (m', r)) :
    (n ≤ h.sdsavail ∧ m' = m ∧ r = some s) ∨
    (h.sdsavail < n ∧ ∃ q b, r = some q ∧ m.heap.get q = none ∧ m'.fails = [] ∧
      Moved m.heap.get s q b m'.heap.get ∧ Grown h n b) := by
  unfold sdsMakeRoomFor sdsMakeRoomWith at hr
  rw [hg, Option.bind_some] at hr
  dsimp only at hr
  split_ifs at hr with havail htype
  · cases hr
    exact .inl ⟨havail, rfl, rfl⟩
  · -- the same header: realloc
    refine .inr ⟨Nat.lt_of_not_le havail, ?_⟩
    obtain ⟨m1, o, h1, ho⟩ := ifNotNull_inv hr
    obtain ⟨b, hb, rfl, hf1, hmv⟩ := realloc_some hf hg h1
    obtain ⟨q, hq, hk⟩ := ho.resolve_left fun hnull => Option.some_ne_none _ hnull.1
    obtain rfl := Option.some.inj hq
    obtain ⟨m2, hm, he⟩ := Option.map_eq_some_iff.mp hk
    obtain ⟨b2, hb2, hf2, hget⟩ := modify_get hmv.get_self hm
    cases he
    obtain rfl := Option.some.inj hb2
    rw [← htype] at hb
    exact ⟨_, _, rfl, Heap.get_next, hf2.trans hf1, hmv.comp (.stay hget), .of_resized htype hl hb⟩
  · -- another header: the text is copied to a new block
    refine .inr ⟨Nat.lt_of_not_le havail, ?_⟩
    obtain ⟨m1, h1, hk⟩ := ifNotNull_malloc hf hr
    obtain ⟨m2, hcpy, hk⟩ := Option.bind_eq_some_iff.mp hk
    obtain ⟨m3, hfree, hk⟩ := Option.bind_eq_some_iff.mp hk
    obtain ⟨m4, hmod, he⟩ := Option.map_eq_some_iff.mp hk
    obtain ⟨hq, hf3, b, hmv, hty, hsize, hle, htext⟩ := copy_some hf hg (Nat.succ_pos _) h1 hcpy hfree
    obtain ⟨b2, hb2, hf4, hget⟩ := modify_get hmv.get_self hmod
    cases he
    obtain rfl := Option.some.inj hb2
    rw [← hty] at hsize
    exact ⟨_, _, rfl, hq, hf4.trans hf3, hmv.comp (.stay hget), .of_copied hty hsize hle htext⟩

/-- `sdsMakeRoomFor` returns when the sizes do not wrap. -/
theorem makeRoom_isSome (hf : m.fails = []) (hg : m.heap.get s = some h) (hlen : h.len < h.buf.length)
    (hn : h.sdsavail < n) (hroomy : Roomy h.len n) : ∃ m' q, sdsMakeRoomFor m s n = some (m', some q) := by
  have hsize := hroomy.size (roomType (roomLen h.len n))
  have hle : sdsHdrSize (roomType (roomLen h.len n)) ≤
      (sdsHdrSize (roomType (roomLen h.len n)) + roomLen h.len n + 1) % 2 ^ 64 := by omega
  unfold sdsMakeRoomFor sdsMakeRoomWith
  rw [hg, Option.bind_some, if_neg (Nat.not_le_of_lt hn)]
  dsimp only
  split_ifs with htype
  · obtain ⟨b, hb⟩ := resize_isSome (h := h) (htype ▸ hle)
    have hr : m.realloc s ((sdsHdrSize (roomType (roomLen h.len n)) + roomLen h.len n + 1) % 2 ^ 64) =
        some (⟨(m.heap.put s none).alloc b, []⟩, some m.heap.next) := by
      rw [realloc_eq hf hg, ← htype, hb]
      rfl
    obtain ⟨b', hb', -, -, hmv⟩ := realloc_some hf hg hr
    rw [ifNotNull_some hr]
    obtain ⟨m2, hm⟩ := modify_isSome (f := fun h' => some (h'.sdssetalloc (roomLen h.len n))) hmv.get_self rfl
    exact ⟨m2, m.heap.next, by rw [hm]; rfl⟩
  · obtain ⟨m1, hr⟩ := malloc_isSome hf hle
    obtain ⟨b0, hb0, -, -, hget⟩ := malloc_some hf hr
    have hne : s ≠ m.heap.next := Heap.ne_next hg
    obtain ⟨-, -, -, hbsize, -⟩ := resize_some hb0
    simp only at hbsize
    have hbuf : h.len + 1 ≤ b0.buf.length := by
      have := hroomy.roomLen.1
      omega
    have hs1 : m1.heap.get s = some h := by rw [hget, Function.update_of_ne hne, hg]
    have hread : (Src.sds s 0).read m1 (h.len + 1) = some ((h.buf.drop 0).take (h.len + 1)) := by
      rw [read_sds hs1 (Nat.succ_pos _), Lib.read, if_pos (by omega)]
    have hmeet : (Src.sds s 0).meets m.heap.next 0 (h.len + 1) = false := by simp [Src.meets, hne]
    have hfit : 0 + ((h.buf.drop 0).take (h.len + 1)).length ≤ b0.buf.length := by
      rw [List.drop_zero, List.length_take]
      omega
    obtain ⟨m2, hcpy⟩ := memcpy_isSome hmeet hread (by rw [hget, Function.update_self]) hfit
    obtain ⟨-, -, -, b1, -, -, -, -, hget2⟩ := memcpy_some hcpy
    obtain ⟨m3, hfree⟩ := sdsfree_isSome (m := m2) (p := s) (b := h) (by
      rw [hget2, Function.update_of_ne hne]
      exact hs1)
    obtain ⟨-, -, hget3⟩ := sdsfree_some hfree
    obtain ⟨m4, hmod⟩ := modify_isSome (m := m3) (p := m.heap.next) (b := b1)
      (f := fun b => some ((b.sdssetlen h.len).sdssetalloc (roomLen h.len n)))
      (by rw [hget3, Function.update_of_ne (Ne.symm hne), hget2, Function.update_self]) rfl
    rw [ifNotNull_some hr, hcpy, Option.bind_some, hfree, Option.bind_some, hmod]
    exact ⟨_, _, rfl⟩

end MakeRoom

end BeanRaft.Slice
