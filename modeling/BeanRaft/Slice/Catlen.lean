import BeanRaft.Slice.Strings

/-!
# BeanRaft.Slice.Catlen — appending to a string and making a new one

* `sdscatlen_stay`, `sdscatlen_move`: when `sdscatlen` returns, and that the string at the pointer returned is the old
  one with the source appended (`Catted`).
* `sdscatlen_meets`, `sdscatlen_lost`: the calls that run into undefined behaviour.
* `sdsnewlen_cases`, `sdsnewlen_isSome`, `sdsempty_isSome`: the strings that the constructors make.
-/

namespace BeanRaft.Slice

open Lib

/-! ## sdscatlen -/

/-- The string `h` at `p` with `bs` appended is at `q`. -/
def Catted (m : Mem) (p : Ptr) (h : Sdshdr) (bs : List Byte) (m' : Mem) (q : Ptr) : Prop :=
  ∃ b, m'.fails = [] ∧ Moved m.heap.get p q b m'.heap.get ∧ Sound b ∧ b.len = h.len + bs.length ∧
    b.buf.take (h.len + bs.length + 1) = h.buf.take h.len ++ bs ++ [some 0]

section Sdscatlen

variable {m m' : Mem} {p q : Ptr} {h b : Sdshdr} {t : Src} {bs : List Byte} {n : Nat}

theorem Src.read_length (hr : t.read m n = some bs) : bs.length = n := by
  unfold Src.read at hr
  split_ifs at hr with hn
  · cases hr
    exact hn.symm
  · obtain ⟨all, -, hread⟩ := Option.bind_eq_some_iff.mp hr
    exact (read_some hread).2.2

theorem Src.exists_place (hin : t.inside p = true) : ∃ off, t = .sds p off := by
  cases t with
  | sds q off => exact ⟨off, by rw [of_decide_eq_true hin]⟩
  | null | noinit => cases hin
  | ext bytes => cases hin

theorem Src.bytes_dead {off : Nat} (hp : m.heap.get p = none) : (Src.sds p off).bytes m = none := by
  show (m.heap.get p).bind _ = none
  rw [hp]
  rfl

/-- Nothing can be read from a dead block. -/
theorem Src.read_dead {off : Nat} (hp : m.heap.get p = none) (hn : 0 < n) : (Src.sds p off).read m n = none := by
  unfold Src.read
  rw [if_neg (Nat.pos_iff_ne_zero.mp hn), Src.bytes_dead hp, Option.bind_none]

theorem Src.bytes_mono (hext : ∀ q, (m.heap.get q).isSome = true → m'.heap.get q = m.heap.get q)
    (hb : t.bytes m = some bs) : t.bytes m' = some bs := by
  cases t with
  | null => cases hb
  | noinit => exact hb
  | ext bytes => exact hb
  | sds q off =>
    obtain ⟨h, hh, hbs⟩ := Option.bind_eq_some_iff.mp hb
    show (m'.heap.get q).bind _ = some bs
    rw [hext q (by rw [hh]; rfl), hh]
    exact hbs

theorem Src.read_mono (hext : ∀ q, (m.heap.get q).isSome = true → m'.heap.get q = m.heap.get q)
    (hb : t.read m n = some bs) : t.read m' n = some bs := by
  unfold Src.read at hb ⊢
  split_ifs at hb ⊢ with hn
  · exact hb
  · obtain ⟨all, hall, hread⟩ := Option.bind_eq_some_iff.mp hb
    rw [Src.bytes_mono hext hall]
    exact hread

theorem Src.strlen_mono (hext : ∀ q, (m.heap.get q).isSome = true → m'.heap.get q = m.heap.get q)
    (hb : t.strlen m = some n) : t.strlen m' = some n := by
  obtain ⟨all, hall, hlen⟩ := Option.bind_eq_some_iff.mp hb
  unfold Src.strlen
  rw [Src.bytes_mono hext hall]
  exact hlen

/-- What can be read is not in a dead block. -/
theorem Src.inside_dead (hp : m.heap.get p = none) (hn : 0 < n) (hread : t.read m n = some bs) : t.inside p = false := by
  by_contra hin
  obtain ⟨off, rfl⟩ := Src.exists_place (Bool.not_eq_false _ ▸ hin)
  rw [Src.read_dead hp hn] at hread
  cases hread

/-- The sources stay as they are while the string at `p` is written and moved. -/
theorem Src.bytes_moved (hmv : Moved m.heap.get p q b m'.heap.get) (hout : t.inside p = false)
    (hb : t.bytes m = some bs) : t.bytes m' = some bs := by
  cases t with
  | null => cases hb
  | noinit => exact hb
  | ext bytes => exact hb
  | sds x off =>
    have hx : x ≠ p := by simpa [Src.inside] using hout
    obtain ⟨h, hh, hbs⟩ := Option.bind_eq_some_iff.mp hb
    show (m'.heap.get x).bind _ = some bs
    rw [(hmv.get_other hx (by rw [hh]; rfl)).1, hh]
    exact hbs

theorem Src.read_moved (hmv : Moved m.heap.get p q b m'.heap.get) (hout : t.inside p = false)
    (hr : t.read m n = some bs) : t.read m' n = some bs := by
  unfold Src.read at hr ⊢
  split_ifs at hr ⊢ with hn
  · exact hr
  · obtain ⟨all, hall, hread⟩ := Option.bind_eq_some_iff.mp hr
    rw [Src.bytes_moved hmv hout hall]
    exact hread

theorem Src.strlen_moved (hmv : Moved m.heap.get p q b m'.heap.get) (hout : t.inside p = false)
    (hl : t.strlen m = some n) : t.strlen m' = some n := by
  obtain ⟨all, hall, hlen⟩ := Option.bind_eq_some_iff.mp hl
  unfold Src.strlen
  rw [Src.bytes_moved hmv hout hall]
  exact hlen

/-- A source outside the string is not in the block that the string moved to. -/
theorem Src.inside_moved (hmv : Moved m.heap.get p q b m'.heap.get) (hout : t.inside p = false) (hn : 0 < n)
    (hr : t.read m n = some bs) : t.inside q = false := by
  rcases hmv.fresh with rfl | hdead
  · exact hout
  · exact Src.inside_dead hdead hn hr

theorem makeRoom_stay (hg : m.heap.get p = some h) (hn : n ≤ h.sdsavail) : sdsMakeRoomFor m p n = some (m, some p) := by
  unfold sdsMakeRoomFor sdsMakeRoomWith
  rw [hg, Option.bind_some, if_pos hn]

/-- The rest of `sdscatlen` when the string has room. -/
theorem append_isSome (hf : m.fails = []) (hg : m.heap.get q = some b) (hs : Sound b) (hn : n ≤ b.sdsavail)
    (hmeet : t.meets q b.len n = false) (hread : t.read m n = some bs) :
    ∃ m', ((m.memcpy q b.len t n).bind fun m =>
      (m.modify q fun b' => (b'.sdssetlen ((b.len + n) % 2 ^ 64)).write ((b.len + n) % 2 ^ 64) [some 0]).map
        (·, some q)) = some (m', some q) ∧ Catted m q b bs m' q := by
  have hlen := Src.read_length hread
  have hroom := hs.room
  obtain ⟨m1, hcpy⟩ := memcpy_isSome hmeet hread hg (by omega)
  obtain ⟨-, bs', b0, b1, hread', hb0, hw, hf1, hget1⟩ := memcpy_some hcpy
  obtain rfl : bs = bs' := Option.some.inj (hread.symm.trans hread')
  obtain rfl : b = b0 := Option.some.inj (hg.symm.trans hb0)
  obtain ⟨hty, hl1, hal, hbuf⟩ := hdr_write_some hw
  have hbl := length_write hbuf
  obtain ⟨-, hmod⟩ := hs.grow hn rfl hbl
  have h64 : (b.len + n) % 2 ^ 64 = b.len + n := by
    refine Nat.mod_eq_of_lt (Nat.lt_of_lt_of_le (hmod ▸ Nat.mod_lt _ (Nat.pow_pos (by decide))) ?_)
    exact Nat.pow_le_pow_right (by decide) (by cases b.type <;> decide)
  rw [h64, hcpy, Option.bind_some]
  have hnull : b1.sdssetlen (b.len + n) = { b with len := b.len + n, buf := b1.buf } := by
    unfold Sdshdr.sdssetlen
    rw [hty, hmod, ← hal]
  have hfit : b.len + n + [some (0 : UInt8)].length ≤ b1.buf.length := by
    rw [hbl]
    exact Nat.lt_of_le_of_lt (Nat.add_le_add_left hn _) hroom
  obtain ⟨buf2, hbuf2⟩ := write_isSome hfit
  have hb2 : (b1.sdssetlen (b.len + n)).write (b.len + n) [some 0] =
      some { b with len := b.len + n, buf := buf2 } := by
    rw [hnull, Sdshdr.write, hbuf2]
    rfl
  obtain ⟨m2, hm2⟩ := modify_isSome (m := m1) (p := q)
    (f := fun b' => (b'.sdssetlen (b.len + n)).write (b.len + n) [some 0])
    (by rw [hget1, Function.update_self]) hb2
  obtain ⟨b2', hb2', hf2, hget2⟩ := modify_get (by rw [hget1, Function.update_self]) hm2
  obtain rfl := Option.some.inj (hb2.symm.trans hb2')
  refine ⟨m2, by rw [hm2]; rfl, _, hf2.trans (hf1.trans hf), .stay (by rw [hget2, hget1, Function.update_idem]), ?_,
    by rw [hlen], ?_⟩
  · obtain ⟨hsound, -⟩ := hs.grow hn rfl ((length_write hbuf2).trans hbl)
    rwa [hmod] at hsound
  · have htext := take_write hbuf
    rw [hlen] at htext ⊢
    rw [← htext]
    exact take_write hbuf2

theorem Src.meets_of_inside (hin : t.inside p = false) (off n : Nat) : t.meets p off n = false := by
  cases t with
  | sds x o =>
    have hne : x ≠ p := by simpa [Src.inside] using hin
    simp [Src.meets, hne]
  | null => rfl
  | noinit => rfl
  | ext bytes => rfl

theorem sdscatlen_stay (hf : m.fails = []) (hg : m.heap.get p = some h) (hs : Sound h) (hn : n ≤ h.sdsavail)
    (hmeet : t.meets p h.len n = false) (hread : t.read m n = some bs) :
    ∃ m', sdscatlen m p t n = some (m', some p) ∧ Catted m p h bs m' p := by
  obtain ⟨m', he, hcat⟩ := append_isSome hf hg hs hn hmeet hread
  refine ⟨m', ?_, hcat⟩
  unfold sdscatlen
  rw [hg, Option.bind_some, ifNotNull_some (makeRoom_stay hg hn)]
  exact he

theorem sdscatlen_meets (hg : m.heap.get p = some h) (hn : n ≤ h.sdsavail) (hmeet : t.meets p h.len n = true) :
    sdscatlen m p t n = none := by
  unfold sdscatlen Mem.memcpy
  rw [hg, Option.bind_some, ifNotNull_some (makeRoom_stay hg hn), if_pos hmeet]
  rfl

/-- The string moves, and what is appended is not in the block that it leaves. -/
theorem sdscatlen_move (hf : m.fails = []) (hg : m.heap.get p = some h) (hs : Sound h) (hn : h.sdsavail < n)
    (hin : t.inside p = false) (hroomy : Roomy h.len n) (hread : t.read m n = some bs) :
    ∃ m' q, sdscatlen m p t n = some (m', some q) ∧ q ≠ p ∧ Catted m p h bs m' q := by
  have hlen : h.len < h.buf.length := Nat.lt_of_le_of_lt (Nat.le_add_right _ _) hs.room
  obtain ⟨m1, q, hroom⟩ := makeRoom_isSome hf hg hlen hn hroomy
  rcases makeRoom_cases hf hg hs.len_lt hroom with ⟨hle, -, -⟩ | ⟨-, q', b, hq, hq0, hf1, hmv, hgrown⟩
  · exact absurd hn (Nat.not_lt_of_le hle)
  cases hq
  obtain ⟨hsound, havail⟩ := hgrown.sound hroomy
  have hread1 : t.read m1 n = some bs := Src.read_moved hmv hin hread
  have hmeet : t.meets q b.len n = false :=
    Src.meets_of_inside (Src.inside_moved hmv hin (Nat.zero_lt_of_lt hn) hread) _ _
  obtain ⟨m2, he, b2, hf2, hmv2, hs2, hl2, ht2⟩ := append_isSome hf1 hmv.get_self hsound havail hmeet hread1
  have hqp : q ≠ p := by
    rintro rfl
    rw [hq0] at hg
    simp at hg
  refine ⟨m2, q, ?_, hqp, b2, hf2, hmv.comp hmv2, hs2, by rw [hl2, hgrown.len], ?_⟩
  · unfold sdscatlen
    rw [hg, Option.bind_some, ifNotNull_some hroom, ← hgrown.len]
    exact he
  · have hroomb := hsound.room
    have hlb := hgrown.len
    rw [← hgrown.len, ht2, hgrown.text b.len (by omega) (by omega) (by omega)]

/-- The string moves and the source is lost with the old block, or the new block is too small. -/
theorem sdscatlen_lost (hf : m.fails = []) (hg : m.heap.get p = some h) (hs : Sound h) (hn : h.sdsavail < n)
    (hlost : t.inside p = true ∨ ¬ Roomy h.len n) : sdscatlen m p t n = none := by
  by_contra hne
  obtain ⟨x, hx⟩ := Option.ne_none_iff_exists'.mp hne
  unfold sdscatlen at hx
  rw [hg, Option.bind_some] at hx
  obtain ⟨m1, o, h1, ho⟩ := ifNotNull_inv hx
  rcases makeRoom_cases hf hg hs.len_lt h1 with ⟨hle, -, -⟩ | ⟨-, q, b, rfl, hq0, hf1, hmv, hgrown⟩
  · exact absurd hn (Nat.not_lt_of_le hle)
  obtain ⟨q', hq, hk⟩ := ho.resolve_left fun hnull => Option.some_ne_none _ hnull.1
  obtain rfl := Option.some.inj hq
  obtain ⟨m2, hcpy, -⟩ := Option.bind_eq_some_iff.mp hk
  obtain ⟨-, bs, b', b2, hread, hb', hw, -, -⟩ := memcpy_some hcpy
  rw [hmv.get_self] at hb'
  obtain rfl := Option.some.inj hb'
  rcases hlost with hin | hroomy
  · have hqp : q ≠ p := by
      rintro rfl
      rw [hq0] at hg
      simp at hg
    obtain ⟨off, rfl⟩ := Src.exists_place hin
    rw [Src.read_dead (hmv.dead hqp) (Nat.zero_lt_of_lt hn)] at hread
    cases hread
  · have hsmall := hgrown.small hroomy
    have hlen := Src.read_length hread
    obtain ⟨hfit, -⟩ := write_some (hdr_write_some hw).2.2.2
    omega

end Sdscatlen

/-! ## sdsnewlen -/

section Sdsnewlen

variable {m m' : Mem} {r : Option Ptr} {init : Src} {n : Nat}

theorem terminated_of_take {b : Sdshdr} {l : List Byte} (hl : l.length = b.len)
    (ht : b.buf.take (b.len + 1) = l ++ [some 0]) : Terminated b := by
  unfold Terminated
  have hget : (b.buf.take (b.len + 1))[b.len]? = (l ++ [some 0])[b.len]? := by rw [ht]
  rw [List.getElem?_take_of_lt (Nat.lt_succ_self _), ← hl, List.getElem?_append_right (Nat.le_refl _)] at hget
  rw [← hl, hget]
  simp

/-- The header that a new string gets. -/
theorem setHeader_some {h b : Sdshdr} (hb : (h.sdssetlen n).sdssetalloc n = b) : b.type = h.type ∧
    b.len = n % 2 ^ h.type.bits ∧ (h.type ≠ .type5 → b.alloc = n % 2 ^ h.type.bits) ∧ b.buf = h.buf := by
  subst hb
  unfold Sdshdr.sdssetalloc
  split
  · exact ⟨rfl, rfl, fun hne => absurd ‹_› hne, rfl⟩
  · exact ⟨rfl, rfl, fun _ => rfl, rfl⟩

/-- A string without free space. -/
theorem sound_full {b : Sdshdr} (hn : n < 2 ^ b.type.bits) (hlen : b.len = n)
    (halloc : b.type ≠ .type5 → b.alloc = n) (hbuf : n < b.buf.length) : Sound b := by
  refine ⟨by rw [hlen]; exact hn, fun hne => by rw [hlen, halloc hne], fun hne => by rw [halloc hne]; exact hn, ?_⟩
  have hzero : b.sdsavail = 0 := by
    by_cases ht : b.type = .type5
    · exact sdsavail_type5 ht
    · rw [sdsavail_eq ht (by rw [hlen, halloc ht]) (by rw [halloc ht]; exact hn), hlen, halloc ht, Nat.sub_self]
  rw [hlen, hzero]
  exact hbuf

/-- The bytes are copied from `init`, or nothing is. -/
theorem copyInit_some {q : Ptr} {b : Sdshdr} (hg : m.heap.get q = some b)
    (hcpy : (if n ≠ 0 ∧ init ≠ .null ∧ init ≠ .noinit then m.memcpy q 0 init n else some m) = some m') :
    ∃ b', m'.fails = m.fails ∧ m'.heap.get = Function.update m.heap.get q (some b') ∧
      b'.type = b.type ∧ b'.len = b.len ∧ b'.alloc = b.alloc ∧ b'.buf.length = b.buf.length ∧
      ∀ bs, init ≠ .null → init ≠ .noinit → init.read m n = some bs → b'.buf.take n = bs := by
  split_ifs at hcpy with hinit
  · obtain ⟨-, bs, b1, b2, hread, hb1, hw, hf, hget⟩ := memcpy_some hcpy
    obtain rfl := Option.some.inj (hg.symm.trans hb1)
    obtain ⟨hty, hl, ha, hbuf⟩ := hdr_write_some hw
    refine ⟨b2, hf, hget, hty, hl, ha, length_write hbuf, fun bs' _ _ hread' => ?_⟩
    obtain rfl := Option.some.inj (hread.symm.trans hread')
    have htake := take_write hbuf
    rw [Nat.zero_add, Src.read_length hread, List.take_zero, List.nil_append] at htake
    exact htake
  · obtain rfl := Option.some.inj hcpy
    refine ⟨b, rfl, (Function.update_eq_self_iff.mpr hg.symm).symm, rfl, rfl, rfl, rfl, fun bs hnull hno hread => ?_⟩
    -- nothing is copied, so there are no bytes
    have hn : n = 0 := by
      by_contra hne
      exact hinit ⟨hne, hnull, hno⟩
    have hlen := Src.read_length hread
    rw [hn] at hlen ⊢
    rw [List.take_zero, List.length_eq_zero_iff.mp hlen]

/-- The header and, for a NULL, the zeroes of a new string. -/
theorem initHeader_some {q : Ptr} {b : Sdshdr} (hg : m.heap.get q = some b)
    (hset : (m.modify q fun h =>
      let buf := if init = .null then List.replicate h.buf.length (some 0) else h.buf
      some (({ h with buf := buf }.sdssetlen n).sdssetalloc n)) = some m') :
    ∃ b', m'.fails = m.fails ∧ m'.heap.get = Function.update m.heap.get q (some b') ∧ b'.type = b.type ∧
      b'.len = n % 2 ^ b.type.bits ∧ (b.type ≠ .type5 → b'.alloc = n % 2 ^ b.type.bits) ∧
      b'.buf.length = b.buf.length := by
  obtain ⟨b1, hb1, hf, hget⟩ := modify_get hg hset
  obtain ⟨hty, hl, ha, hbuf⟩ := setHeader_some (Option.some.inj hb1)
  refine ⟨b1, hf, hget, hty, hl, ha, ?_⟩
  rw [hbuf]
  dsimp only
  split_ifs
  · exact List.length_replicate
  · rfl

/-- The null term. -/
theorem nullTerm_some {q : Ptr} {b : Sdshdr} (hg : m.heap.get q = some b)
    (hnull : (m.modify q fun h => h.write n [some 0]) = some m') :
    ∃ b', m'.fails = m.fails ∧ m'.heap.get = Function.update m.heap.get q (some b') ∧ b'.type = b.type ∧
      b'.len = b.len ∧ b'.alloc = b.alloc ∧ n + 1 ≤ b'.buf.length ∧ b'.buf.length = b.buf.length ∧
      b'.buf.take (n + 1) = b.buf.take n ++ [some 0] := by
  obtain ⟨b1, hb1, hf, hget⟩ := modify_get hg hnull
  obtain ⟨hty, hl, ha, hbuf⟩ := hdr_write_some hb1
  have hfit : n + 1 ≤ b.buf.length := (write_some hbuf).1
  have hlen := length_write hbuf
  exact ⟨b1, hf, hget, hty, hl, ha, by omega, hlen, take_write hbuf⟩

/-- The type of a new string can hold its length. -/
theorem newType_lt (hn : n < 2 ^ 64) :
    n < 2 ^ (if sdsReqType n = .type5 ∧ n = 0 then SdsType.type8 else sdsReqType n).bits := by
  split_ifs with h0
  · rw [h0.2]
    decide
  · exact sdsReqType_lt hn

/-- The null term is inside the block only when the size of the block did not wrap. -/
theorem block_fits {type : SdsType} {k : Nat} (htype : n < 2 ^ 64 → n < 2 ^ type.bits)
    (hsize : sdsHdrSize type + k = (sdsHdrSize type + n + 1) % 2 ^ 64) (hfit : n + 1 ≤ k) :
    n < 2 ^ type.bits ∧ n + 18 < 2 ^ 64 := by
  have hmod := Nat.mod_le (sdsHdrSize type + n + 1) (2 ^ 64)
  have hlt64 := Nat.mod_lt (sdsHdrSize type + n + 1) (show 0 < 2 ^ 64 by decide)
  have hlt := htype (by omega)
  refine ⟨hlt, ?_⟩
  by_cases hn32 : n < 2 ^ 32
  · omega
  · -- only the largest header goes with a length from 2^32 on
    have hhdr : sdsHdrSize type = 17 := by
      cases type with
      | type64 => rfl
      | type5 => exact absurd (Nat.lt_trans hlt (by decide)) hn32
      | type8 => exact absurd (Nat.lt_trans hlt (by decide)) hn32
      | type16 => exact absurd (Nat.lt_trans hlt (by decide)) hn32
      | type32 => exact absurd hlt hn32
    omega

/-- What can be read is not in the block that is allocated next. -/
theorem read_next {bs : List Byte} {o : Option Sdshdr} (hget : m'.heap.get = Function.update m.heap.get m.heap.next o)
    (hread : init.read m n = some bs) : init.read m' n = some bs := by
  refine Src.read_mono (fun x hx => ?_) hread
  have hne : x ≠ m.heap.next := by
    rintro rfl
    rw [Heap.get_next] at hx
    simp at hx
  rw [hget, Function.update_of_ne hne]

/-- A new string is sound and has its null term, whatever it was made of; its bytes are those that were read. -/
theorem sdsnewlen_cases (hf : m.fails = []) (hr : sdsnewlen m init n = some (m', r)) :
    ∃ q b, r = some q ∧ m.heap.get q = none ∧ m'.fails = [] ∧ m'.heap.get = Function.update m.heap.get q (some b) ∧
      Sound b ∧ Terminated b ∧ b.len = n ∧ n + 18 < 2 ^ 64 ∧
      ∀ bs, init ≠ .null → init ≠ .noinit → init.read m n = some bs → b.buf.take n = bs := by
  have htype := newType_lt (n := n)
  unfold sdsnewlen at hr
  dsimp only at hr
  revert htype hr
  generalize (if sdsReqType n = .type5 ∧ n = 0 then SdsType.type8 else sdsReqType n) = type
  intro hr htype
  rw [hf, if_neg (by simp)] at hr
  obtain ⟨m1, h1, hk⟩ := ifNotNull_malloc hf hr
  obtain ⟨b0, hb0, -, hf1, hget1⟩ := malloc_some hf h1
  obtain ⟨m2, hset, hk⟩ := Option.bind_eq_some_iff.mp hk
  obtain ⟨m3, hcpy, hk⟩ := Option.bind_eq_some_iff.mp hk
  obtain ⟨m4, hnull, he⟩ := Option.map_eq_some_iff.mp hk
  cases he
  -- the block, its header, its bytes and the null term
  obtain ⟨hty0, -, -, hsize, -⟩ := resize_some hb0
  obtain ⟨b1, hf2, hget2, hty1, hl1, ha1, hbl1⟩ := initHeader_some (by rw [hget1, Function.update_self]) hset
  obtain ⟨b2, hf3, hget3, hty2, hl2, ha2, hbl2, htext⟩ := copyInit_some (by rw [hget2, Function.update_self]) hcpy
  obtain ⟨b3, hf4, hget4, hty3, hl3, ha3, hfit, hbl3, hbuf3⟩ := nullTerm_some (by rw [hget3, Function.update_self]) hnull
  have hb0type : b0.type = type := hty0
  have hwrap : sdsHdrSize type + b3.buf.length = (sdsHdrSize type + n + 1) % 2 ^ 64 := by
    rw [hbl3, hbl2, hbl1]
    exact hsize
  obtain ⟨hlt, hbound⟩ := block_fits htype hwrap hfit
  have hntype : n % 2 ^ type.bits = n := Nat.mod_eq_of_lt hlt
  rw [hb0type, hntype] at hl1 ha1
  have hlen3 : b3.len = n := hl3.trans (hl2.trans hl1)
  have htype3 : b3.type = type := hty3.trans (hty2.trans (hty1.trans hb0type))
  refine ⟨_, b3, rfl, Heap.get_next, hf4.trans (hf3.trans (hf2.trans hf1)), ?_, ?_, ?_, hlen3, hbound,
    fun bs hinull hino hread => ?_⟩
  · rw [hget4, hget3, hget2, hget1, Function.update_idem, Function.update_idem, Function.update_idem]
  · refine sound_full (by rw [htype3]; exact hlt) hlen3 (fun ht => ?_) hfit
    rw [htype3] at ht
    exact ha3.trans (ha2.trans (ha1 ht))
  · refine terminated_of_take (l := b2.buf.take n) ?_ ?_
    · rw [List.length_take, hlen3]
      omega
    · rw [hlen3]
      exact hbuf3
  · have hread2 : init.read m2 n = some bs := by
      refine read_next (o := some b1) ?_ hread
      rw [hget2, hget1, Function.update_idem]
    rw [← htext bs hinull hino hread2]
    have hpre : (b3.buf.take (n + 1)).take n = b2.buf.take n := by
      rw [hbuf3, List.take_left']
      rw [List.length_take]
      omega
    rw [← hpre, List.take_take, Nat.min_eq_left (Nat.le_succ n)]

/-- The block of a new string is the next one. -/
theorem sdsnewlen_next {q : Ptr} (hf : m.fails = []) (hr : sdsnewlen m init n = some (m', some q)) :
    q = m.heap.next := by
  unfold sdsnewlen at hr
  dsimp only at hr
  rw [hf, if_neg (by simp)] at hr
  obtain ⟨m1, -, hk⟩ := ifNotNull_malloc hf hr
  obtain ⟨m2, -, hk⟩ := Option.bind_eq_some_iff.mp hk
  obtain ⟨m3, -, hk⟩ := Option.bind_eq_some_iff.mp hk
  obtain ⟨m4, -, he⟩ := Option.map_eq_some_iff.mp hk
  cases he
  rfl

/-- A string is made, of bytes that can be read if any are, unless its block is too large. -/
theorem sdsnewlen_isSome (hf : m.fails = []) (hn : n + 18 < 2 ^ 64)
    (hread : init ≠ .null → init ≠ .noinit → ∃ bs, init.read m n = some bs) : ∃ x, sdsnewlen m init n = some x := by
  unfold sdsnewlen
  dsimp only
  generalize (if sdsReqType n = .type5 ∧ n = 0 then SdsType.type8 else sdsReqType n) = type
  rw [hf, if_neg (by simp)]
  have hhdr := sdsHdrSize_le type
  have hmod : (sdsHdrSize type + n + 1) % 2 ^ 64 = sdsHdrSize type + n + 1 := Nat.mod_eq_of_lt (by omega)
  rw [hmod]
  have hle : sdsHdrSize type ≤ sdsHdrSize type + n + 1 := by omega
  obtain ⟨m1, hmalloc⟩ := malloc_isSome hf hle
  obtain ⟨b0, hb0, -, -, hget1⟩ := malloc_some hf hmalloc
  have hg1 : m1.heap.get m.heap.next = some b0 := by rw [hget1, Function.update_self]
  obtain ⟨-, -, -, hsize, -⟩ := resize_some hb0
  have hlen0 : b0.buf.length = n + 1 := by
    have hsize' : sdsHdrSize type + b0.buf.length = sdsHdrSize type + n + 1 := hsize
    omega
  rw [ifNotNull_some hmalloc]
  -- the header
  obtain ⟨m2, hset⟩ := modify_isSome hg1 (f := fun h =>
    some (({ h with buf := if init = Src.null then List.replicate h.buf.length (some 0) else h.buf }.sdssetlen
      n).sdssetalloc n)) rfl
  obtain ⟨b1, -, hget2, -, -, -, hlen1⟩ := initHeader_some hg1 hset
  have hg2 : m2.heap.get m.heap.next = some b1 := by rw [hget2, Function.update_self]
  rw [hset, Option.bind_some]
  -- the bytes
  obtain ⟨m3, hcpy⟩ : ∃ m3, (if n ≠ 0 ∧ init ≠ .null ∧ init ≠ .noinit then m2.memcpy m.heap.next 0 init n else some m2) =
      some m3 := by
    split_ifs with hinit
    · obtain ⟨bs, hread⟩ := hread hinit.2.1 hinit.2.2
      have hread2 : init.read m2 n = some bs := by
        refine read_next (o := some b1) ?_ hread
        rw [hget2, hget1, Function.update_idem]
      have hmeet : init.meets m.heap.next 0 n = false :=
        Src.meets_of_inside (Src.inside_dead Heap.get_next (Nat.pos_of_ne_zero hinit.1) hread) 0 n
      refine memcpy_isSome hmeet hread2 hg2 ?_
      rw [Src.read_length hread, hlen1, hlen0]
      omega
    · exact ⟨m2, rfl⟩
  obtain ⟨b2, -, hget3, -, -, -, hlen2, -⟩ := copyInit_some hg2 hcpy
  rw [hcpy, Option.bind_some]
  -- the null term
  obtain ⟨b3, hb3⟩ : ∃ b3, b2.write n [some 0] = some b3 := by
    apply hdr_write_isSome
    rw [hlen2, hlen1, hlen0]
    exact Nat.le_refl _
  obtain ⟨m4, hnul⟩ := modify_isSome (m := m3) (p := m.heap.next) (b := b2) (f := fun h => h.write n [some 0])
    (by rw [hget3, Function.update_self]) hb3
  rw [hnul]
  exact ⟨_, rfl⟩

/-- The empty string. -/
theorem sdsempty_isSome (hf : m.fails = []) : ∃ m' q, sdsempty m = some (m', some q) ∧ m.heap.get q = none ∧
    m'.fails = [] ∧ m'.heap.get = Function.update m.heap.get q (some ⟨.type8, 0, 0, [some 0]⟩) := by
  have hle : sdsHdrSize .type8 ≤ 4 := by decide
  obtain ⟨m1, hr⟩ := malloc_isSome hf hle
  obtain ⟨b0, hb0, -, hf1, hget1⟩ := malloc_some hf hr
  obtain rfl : (⟨.type8, 0, 0, [none]⟩ : Sdshdr) = b0 := Option.some.inj hb0
  obtain ⟨m2, hset⟩ := modify_isSome (m := m1) (p := m.heap.next) (b := ⟨.type8, 0, 0, [none]⟩)
    (f := fun h =>
      let buf := if Src.ext [some 0] = .null then List.replicate h.buf.length (some 0) else h.buf
      some (({ h with buf := buf }.sdssetlen 0).sdssetalloc 0))
    (h := ⟨.type8, 0, 0, [none]⟩) (by rw [hget1, Function.update_self]) rfl
  obtain ⟨b', hb', hf2, hget2⟩ := modify_get (by rw [hget1, Function.update_self]) hset
  obtain rfl := Option.some.inj hb'
  obtain ⟨m3, hnull⟩ := modify_isSome (m := m2) (p := m.heap.next) (b := ⟨.type8, 0, 0, [none]⟩)
    (f := fun h => h.write 0 [some 0]) (h := ⟨.type8, 0, 0, [some 0]⟩) (by rw [hget2, Function.update_self]; rfl) rfl
  obtain ⟨c', hc', hf3, hget3⟩ := modify_get (by rw [hget2, Function.update_self]) hnull
  obtain rfl := Option.some.inj hc'
  refine ⟨m3, m.heap.next, ?_, Heap.get_next, hf3.trans (hf2.trans hf1), ?_⟩
  · unfold sdsempty sdsnewlen
    rw [hf, if_neg (by simp)]
    show ifNotNull (m.malloc .type8 4) _ = _
    rw [ifNotNull_some hr]
    have hcopy : (if (0 : Nat) ≠ 0 ∧ Src.ext [some 0] ≠ .null ∧ Src.ext [some 0] ≠ .noinit then
        m2.memcpy m.heap.next 0 (.ext [some 0]) 0 else some m2) = some m2 := if_neg fun h => h.1 rfl
    rw [hset, Option.bind_some, hcopy, Option.bind_some, hnull]
    rfl
  · rw [hget3, hget2, hget1, Function.update_idem, Function.update_idem]
    rfl

end Sdsnewlen

end BeanRaft.Slice
