import BeanRaft.Slice.Edit

/-!
# BeanRaft.Slice.Room — the functions that make room first

The functions of `sds.cpp` that allocate, under an allocator that may fail: NULL is returned and the heap is as it was,
or the string, which may have moved, has the bytes it is to have.

* `sdsMakeRoomFor_text`, `sdsgrowzero_text`, `sdscpylen_text`, `sdsRemoveFreeSpace_text`, `sdsdup_text`,
  `sdsfromlonglong_text`.
* `sdsIncrLen_text`, `readInto_text`: the end of a string moved by hand, and the way to `read` into the free space.
-/

namespace BeanRaft.Slice

open CInt Lib

section Room

variable {g : Nat → Option Sdshdr} {l : List (Ptr × List UInt8)} {m m' : Mem} {h b : Sdshdr} {cs ds : List UInt8}
  {p q s : Ptr} {t : Src} {n size : Nat} {type : SdsType} {r : Option (Mem × Option Ptr)} {P Q : Mem → Ptr → Prop}
  {k : Mem → Ptr → Option (Mem × Option Ptr)}

/-- What is done with a string that was granted allocates nothing. -/
theorem Grants.ifNotNull (h : Grants m r P) (hk : ∀ m' q, P m' q → ∃ m'' q', k m' q = some (m'', some q') ∧
    m''.fails = m'.fails ∧ Q m'' q') : Grants m (ifNotNull r k) Q := by
  obtain ⟨m', hfails, ⟨rfl, hheap, htrue⟩ | ⟨q, rfl, hP⟩⟩ := h
  · exact ⟨m', hfails, .inl ⟨rfl, hheap, htrue⟩⟩
  · obtain ⟨m'', q', hr, hf, hQ⟩ := hk m' q hP
    exact ⟨m'', hf ▸ hfails, .inr ⟨q', hr, hQ⟩⟩

/-- Nothing was allocated. -/
theorem Grants.stay (h : P m p) : Grants m (some (m, some p)) P := ⟨m, List.suffix_refl _, .inr ⟨p, rfl, h⟩⟩

/-- **sdsMakeRoomFor**: the same bytes, and room for `n` more. -/
theorem sdsMakeRoomFor_text (ho : Texts g ((p, cs) :: l) m) (hroomy : Roomy cs.length n) :
    Grants m (sdsMakeRoomFor m p n)
      fun m' q => Texts g ((q, cs) :: l) m' ∧ ∃ h, m'.heap.get q = some h ∧ n ≤ h.sdsavail := by
  obtain ⟨h, hg, ht, -⟩ := Owns.head ho
  by_cases havail : n ≤ h.sdsavail
  · rw [makeRoom_stay hg havail]
    exact .stay ⟨ho, h, hg, havail⟩
  · have hs := ht.sound
    have hroom := hs.room
    rw [← ht.len] at hroomy
    have hgc : m.calm.heap.get p = some h := hg
    obtain ⟨mc, q, hr⟩ := makeRoom_isSome rfl hgc (by omega) (Nat.lt_of_not_le havail) hroomy
    obtain ⟨hle, -, -⟩ | ⟨-, q', b, hq, -, -, hmv, hgrown⟩ := makeRoom_cases rfl hgc hs.len_lt hr
    · exact absurd hle havail
    obtain rfl := Option.some.inj hq
    obtain ⟨hsb, havailb⟩ := hgrown.sound hroomy
    have hlen := ht.len
    have hlenb := hgrown.len
    have hroomb := hsb.room
    have htake := hgrown.text (h.len + 1) (Nat.le_refl _) (by omega) (by omega)
    rw [hlen, ht.text] at htake
    have htext : Text b cs := ⟨hsb, hlenb.trans hlen, htake⟩
    refine (granted_makeRoom mc q hr).mono ?_
    rintro m' q' ⟨rfl, hheap⟩
    refine ⟨?_, b, ?_, havailb⟩
    · unfold Texts
      rw [hheap]
      exact Owns.moved ho hmv htext
    · rw [hheap]
      exact hmv.get_self

/-- Bytes written behind the text, and the string ended behind them. -/
theorem Text.extended (ht : Text h cs) (ds : List UInt8) (hle : ds.length ≤ h.sdsavail) : ∃ buf,
    h.write h.len (ds.map some) = some { h with buf := buf } ∧ buf.length = h.buf.length ∧
      buf.take (cs ++ ds).length = (cs ++ ds).map some := by
  have hroom := ht.sound.room
  have hlen := ht.len
  have hfits : h.len + (ds.map some).length ≤ h.buf.length := by
    rw [List.length_map]
    omega
  obtain ⟨buf, hw⟩ := write_isSome hfits
  refine ⟨buf, by rw [Sdshdr.write, hw]; rfl, length_write hw, ?_⟩
  have htake := take_write hw
  rw [List.length_map, hlen, ht.take (Nat.le_refl _), List.take_length] at htake
  rw [List.length_append, List.map_append, htake]

/-- **sdsgrowzero** -/
theorem sdsgrowzero_text (ho : Texts g ((p, cs) :: l) m) (hroomy : Roomy cs.length (n - cs.length)) :
    Grants m (sdsgrowzero m p n) fun m' q => Texts g ((q, cs ++ List.replicate (n - cs.length) 0) :: l) m' := by
  obtain ⟨h, hg, ht, -⟩ := Owns.head ho
  unfold sdsgrowzero
  rw [hg, Option.bind_some, ht.len]
  by_cases hle : n ≤ cs.length
  · rw [if_pos hle, Nat.sub_eq_zero_of_le hle, List.replicate_zero, List.append_nil]
    exact .stay ho
  · rw [if_neg hle]
    refine (sdsMakeRoomFor_text ho hroomy).ifNotNull ?_
    rintro m' q ⟨ho', b, hb, havail⟩
    obtain ⟨b0, hb0, htb, -⟩ := Owns.head ho'
    obtain rfl := Option.some.inj (hb.symm.trans hb0)
    have hlenb := htb.len
    have hroomb := htb.sound.room
    have hlen : (cs ++ List.replicate (n - cs.length) (0 : UInt8)).length = n := by
      rw [List.length_append, List.length_replicate]
      omega
    have hfits : cs.length + (List.replicate (n - cs.length + 1) (some (0 : UInt8))).length ≤ b.buf.length := by
      rw [List.length_replicate]
      omega
    obtain ⟨buf, hw⟩ := write_isSome hfits
    have htake := take_write hw
    rw [List.length_replicate, htb.take (Nat.le_refl _), List.take_length, List.replicate_succ'] at htake
    have hfilled : buf.take ((cs ++ List.replicate (n - cs.length) (0 : UInt8)).length + 1) =
        (cs ++ List.replicate (n - cs.length) 0).map some ++ [some 0] := by
      rw [hlen, List.map_append, List.map_replicate, List.append_assoc, ← htake]
      congr 1
      omega
    have htext := htb.edited (by omega) (length_write hw) hfilled
    rw [hlen] at htext
    obtain ⟨m'', hm, hf, ho''⟩ := modify_text (f := fun b =>
      (b.write cs.length (List.replicate (n - cs.length + 1) (some 0))).map fun b => b.sdssetlen n) ho' hb
      (by rw [Sdshdr.write, hw]; rfl) htext
    exact ⟨m'', q, by rw [hm]; rfl, hf, ho''⟩

/-- The bytes copied to the front of a string that has the room. -/
theorem copied_text (ht : Readable g l t ds) (ho : Texts g ((p, cs) :: l) m) (hg : m.heap.get p = some h)
    (hle : ds.length ≤ h.len + h.sdsavail) : ∃ m',
      ((m.memcpy p 0 t ds.length).bind fun m =>
        (m.modify p fun b => (b.write ds.length [some 0]).map fun b => b.sdssetlen ds.length).map (·, some p)) =
          some (m', some p) ∧ m'.fails = m.fails ∧ Texts g ((p, ds) :: l) m' := by
  obtain ⟨b, hb, htb, -⟩ := Owns.head ho
  obtain rfl := Option.some.inj (hg.symm.trans hb)
  obtain ⟨hin, hread⟩ := ht p cs m ho
  have hroom := htb.sound.room
  have hfits : 0 + (ds.map some).length ≤ h.buf.length := by
    rw [List.length_map]
    omega
  obtain ⟨buf, hw⟩ := write_isSome hfits
  have htake := take_write hw
  rw [List.length_map, List.take_zero, List.nil_append, Nat.zero_add] at htake
  obtain ⟨m1, hcpy⟩ := memcpy_isSome (Src.meets_of_inside hin 0 ds.length) hread hg (by
    rw [List.length_map]
    omega)
  obtain ⟨-, bs, b0, b1, hread', hb0, hw', hf1, hget1⟩ := memcpy_some hcpy
  obtain rfl := Option.some.inj (hread.symm.trans hread')
  obtain rfl := Option.some.inj (hg.symm.trans hb0)
  have hb1 : b1 = { h with buf := buf } := by
    rw [Sdshdr.write, hw] at hw'
    exact (Option.some.inj hw').symm
  obtain ⟨b2, hb2, htext⟩ := htb.ended _ hle (length_write hw) htake
  rw [← hb1] at hb2
  obtain ⟨m2, hm, hf2, ho2⟩ := modify_after (f := fun b => (b.write ds.length [some 0]).map fun b => b.sdssetlen ds.length)
    ho hget1 hb2 htext
  exact ⟨m2, by rw [hcpy, Option.bind_some, hm]; rfl, hf2.trans hf1, ho2⟩

/-- **sdscpylen** -/
theorem sdscpylen_text (ht : Readable g l t ds) (ho : Texts g ((p, cs) :: l) m) (hroomy : Roomy cs.length ds.length) :
    Grants m (sdscpylen m p t ds.length) fun m' q => Texts g ((q, ds) :: l) m' := by
  obtain ⟨h, hg, htext, -⟩ := Owns.head ho
  have hs := htext.sound
  have hlen := htext.len
  unfold sdscpylen
  rw [hg, Option.bind_some]
  have hmake : Grants m (if h.sdsalloc < ds.length then sdsMakeRoomFor m p (uint64 (ds.length - h.len)) else some (m, some p))
      fun m' q => Texts g ((q, cs) :: l) m' ∧ ∃ b, m'.heap.get q = some b ∧ ds.length ≤ b.len + b.sdsavail := by
    have halloc : h.sdsalloc = h.len + h.sdsavail := by
      unfold Sdshdr.sdsalloc
      split
      · rw [sdsavail_type5 ‹_›, Nat.add_zero]
      · rw [sdsavail_eq ‹_› (hs.len_le ‹_›) (hs.alloc_lt ‹_›), Nat.add_sub_cancel' (hs.len_le ‹_›)]
    by_cases hlt : h.sdsalloc < ds.length
    · have hmod : uint64 ((ds.length : Int) - h.len) = ds.length - h.len := by
        unfold Roomy at hroomy
        rw [uint64_of_range (by omega) (by omega)]
        omega
      rw [if_pos hlt, hmod]
      refine (sdsMakeRoomFor_text ho (hroomy.mono (Nat.sub_le _ _))).mono ?_
      rintro m' q ⟨ho', b, hb, havail⟩
      obtain ⟨b0, hb0, htb, -⟩ := Owns.head ho'
      obtain rfl := Option.some.inj (hb.symm.trans hb0)
      have hlenb := htb.len
      exact ⟨ho', b, hb, by omega⟩
    · rw [if_neg hlt]
      exact .stay ⟨ho, h, hg, by omega⟩
  refine hmake.ifNotNull ?_
  rintro m' q ⟨ho', b, hb, hle⟩
  obtain ⟨m'', hr, hrest⟩ := copied_text ht ho' hb hle
  exact ⟨m'', q, hr, hrest⟩

/-! ### sdsIncrLen -/

/-- The free space of a string takes `n` bytes. -/
theorem incrLen_grow (hs : Sound h) (hpos : 0 < n) (hle : n ≤ h.sdsavail) : incrLen h n = some (h.len + n) := by
  have h5 : h.type ≠ .type5 := by
    intro h5
    rw [sdsavail_type5 h5] at hle
    omega
  have havail := sdsavail_eq h5 (hs.len_le h5) (hs.alloc_lt h5)
  have hla := hs.len_le h5
  have halloc := hs.alloc_lt h5
  have h64 : h.alloc < 2 ^ 64 :=
    Nat.lt_of_lt_of_le halloc (Nat.pow_le_pow_right (by decide) (by cases h.type <;> decide))
  unfold incrLen
  cases htype : h.type with
  | type5 => exact absurd htype h5
  | type32 =>
    rw [htype] at halloc
    have hlt : h.alloc < 2 ^ 32 := halloc
    dsimp only
    rw [uint32_of_range (x := n) (by omega) (by omega), uint32_of_range (x := (h.alloc : Int) - h.len) (by omega) (by omega),
      uint32_of_range (x := (h.len : Int) + n) (by omega) (by omega), if_pos (by omega)]
    congr
  | type64 =>
    dsimp only
    rw [uint64_of_range (x := n) (by omega) (by omega), uint64_of_range (x := (h.alloc : Int) - h.len) (by omega) (by omega),
      uint64_of_range (x := (h.len : Int) + n) (by omega) (by omega), if_pos (by omega)]
    congr
  | type8 =>
    rw [htype] at halloc
    have hlt : h.alloc < 2 ^ 8 := halloc
    dsimp only [SdsType.bits]
    rw [if_pos (by omega)]
    congr
    omega
  | type16 =>
    rw [htype] at halloc
    have hlt : h.alloc < 2 ^ 16 := halloc
    dsimp only [SdsType.bits]
    rw [if_pos (by omega)]
    congr
    omega

/-- As many bytes as the string has can be taken off. -/
theorem incrLen_trim (hs : Sound h) (hpos : 0 < n) (hle : n ≤ h.len) : incrLen h (-n) = some (h.len - n) := by
  have hlt := hs.len_lt
  have h64 : h.len < 2 ^ 64 :=
    Nat.lt_of_lt_of_le hlt (Nat.pow_le_pow_right (by decide) (by cases h.type <;> decide))
  unfold incrLen
  cases htype : h.type with
  | type5 =>
    rw [htype] at hlt
    have hlt : h.len < 2 ^ 5 := hlt
    dsimp only
    rw [uint32_of_range (by omega) (by omega), uint64_of_range (by omega) (by omega), if_pos (by omega)]
    congr
    omega
  | type32 =>
    rw [htype] at hlt
    have hlt : h.len < 2 ^ 32 := hlt
    dsimp only
    rw [uint32_of_range (x := - -(n : Int)) (by omega) (by omega), uint32_of_range (x := (h.len : Int) + -n) (by omega) (by omega),
      if_pos (by omega)]
    congr
    omega
  | type64 =>
    dsimp only
    rw [uint64_of_range (x := - -(n : Int)) (by omega) (by omega), uint64_of_range (x := (h.len : Int) + -n) (by omega) (by omega),
      if_pos (by omega)]
    congr
    omega
  | type8 =>
    rw [htype] at hlt
    have hlt : h.len < 2 ^ 8 := hlt
    dsimp only [SdsType.bits]
    rw [uint32_of_range (by omega) (by omega), if_pos (by omega)]
    congr
    omega
  | type16 =>
    rw [htype] at hlt
    have hlt : h.len < 2 ^ 16 := hlt
    dsimp only [SdsType.bits]
    rw [uint32_of_range (by omega) (by omega), if_pos (by omega)]
    congr
    omega

/-- The header is set and the null term written. -/
theorem sdsIncrLen_modify {incr : Int64} {m0 : Mem} (ho : Texts g ((p, cs) :: l) m0)
    (hm : m.heap.get = Function.update m0.heap.get p (some b)) (hmin : incr.toInt ≠ -2 ^ 63) (hincr : incrLen b incr.toInt = some ds.length)
    (hend : ∃ b', (b.write ds.length [some 0]).map (fun b => b.sdssetlen ds.length) = some b' ∧ Text b' ds) :
    ∃ m', sdsIncrLen m p incr = some m' ∧ m'.fails = m.fails ∧ Texts g ((p, ds) :: l) m' := by
  obtain ⟨b', hb', htext⟩ := hend
  have hf : ((incrLen b incr.toInt).bind fun len =>
      ({ b with len := len % 2 ^ b.type.bits } : Sdshdr).write len [some 0]) = some b' := by
    rw [hincr, Option.bind_some, ← hb']
    unfold Sdshdr.write
    rw [Option.map_map]
    rfl
  unfold sdsIncrLen
  rw [if_neg hmin]
  exact modify_after (f := fun h => (incrLen h incr.toInt).bind fun len =>
    ({ h with len := len % 2 ^ h.type.bits } : Sdshdr).write len [some 0]) ho hm hf htext

/-- **sdsIncrLen** with a negative amount cuts the string at its end. -/
theorem sdsIncrLen_text {incr : Int64} (hmin : incr.toInt ≠ -2 ^ 63) (hneg : incr.toInt < 0)
    (hle : 0 ≤ cs.length + incr.toInt) :
    Edits g l (fun m p => sdsIncrLen m p incr) cs (cs.take (cs.length + incr.toInt).toNat) := by
  intro m p ho
  obtain ⟨h, hg, ht, -⟩ := Owns.head ho
  have hlen := ht.len
  have hdslen : (cs.take (cs.length + incr.toInt).toNat).length = (cs.length + incr.toInt).toNat := by
    rw [List.length_take]
    omega
  have hincr : incr.toInt = -((-incr.toInt).toNat : Int) := by omega
  refine sdsIncrLen_modify ho (Function.update_eq_self_iff.mpr hg.symm).symm hmin ?_ (ht.ended _ (by omega) rfl ?_)
  · rw [hincr, incrLen_trim ht.sound (by omega) (by omega), ← hincr, hdslen]
    congr
    omega
  · rw [hdslen]
    exact ht.take (by omega)

/-- **Reading into the free space**: what `read` returned is appended. -/
theorem readInto_text (ho : Texts g ((p, cs) :: l) m) (hroomy : Roomy cs.length size) (hpos : ds ≠ [])
    (hle : ds.length ≤ size) (hlt : ds.length < 2 ^ 63) :
    Grants m (readInto m p size ds) fun m' q => Texts g ((q, cs ++ ds) :: l) m' := by
  obtain ⟨h, hg, ht, -⟩ := Owns.head ho
  have hdspos := List.length_pos_iff.mpr hpos
  unfold readInto
  rw [hg, Option.bind_some, ht.len]
  refine (sdsMakeRoomFor_text ho hroomy).ifNotNull ?_
  rintro m' q ⟨ho', b, hb, havail⟩
  obtain ⟨b0, hb0, htb, -⟩ := Owns.head ho'
  obtain rfl := Option.some.inj (hb.symm.trans hb0)
  obtain ⟨buf, hw0, hbuf, htake⟩ := htb.extended ds (by omega)
  have hw : b.write cs.length (ds.map some) = some { b with buf := buf } := by
    rw [← htb.len]
    exact hw0
  have hlen : (cs ++ ds).length ≤ b.len + b.sdsavail := by
    rw [List.length_append, htb.len]
    omega
  obtain ⟨m1, hm1⟩ := modify_isSome (f := fun b => b.write cs.length (ds.map some)) hb hw
  obtain ⟨b1, hb1, hf1, hget1⟩ := modify_get hb hm1
  obtain rfl := Option.some.inj (hw.symm.trans hb1)
  have hincr : (Int64.ofNat ds.length).toInt = ds.length := Int64.toInt_ofNat_of_lt hlt
  have hgrow : incrLen { b with buf := buf } (Int64.ofNat ds.length).toInt = some (cs ++ ds).length := by
    rw [hincr, List.length_append, ← htb.len]
    exact incrLen_grow (h := b) htb.sound hdspos (by omega)
  obtain ⟨m2, hm2, hf2, ho2⟩ := sdsIncrLen_modify ho' hget1 (by omega) hgrow (htb.ended _ hlen hbuf htake)
  exact ⟨m2, q, by rw [hm1, Option.bind_some, hm2]; rfl, hf2.trans hf1, ho2⟩

/-! ### sdsRemoveFreeSpace -/

theorem granted_removeFreeSpace : Granted m (sdsRemoveFreeSpace m p) (sdsRemoveFreeSpace m.calm p) := by
  intro mc q h
  unfold sdsRemoveFreeSpace sdsRemoveFreeSpaceWith at h ⊢
  obtain ⟨b, hb, h⟩ := Option.bind_eq_some_iff.mp h
  have hb' : m.heap.get p = some b := hb
  rw [hb', Option.bind_some]
  dsimp only at h ⊢
  split_ifs at h ⊢ with htype
  · exact granted_realloc.ifNotNull (fun q => (steady_modify _).last) mc q h
  · exact granted_malloc.ifNotNull
      (fun q => (steady_memcpy 0).before (steady_sdsfree.before (steady_modify _).last)) mc q h

/-- A string is copied to a new block of its own, and the old one freed. -/
theorem copy_isSome (hf : m.fails = []) (hg : m.heap.get s = some h) (hsize : sdsHdrSize type + n ≤ size) (hpos : 0 < n)
    (hn : n ≤ h.buf.length) : ∃ m1 m2 m3, m.malloc type size = some (m1, some m.heap.next) ∧
      m1.memcpy m.heap.next 0 (.sds s 0) n = some m2 ∧ m2.sdsfree (some s) = some m3 := by
  obtain ⟨m1, hr⟩ := malloc_isSome hf (Nat.le_trans (Nat.le_add_right _ n) hsize)
  obtain ⟨b, hb, -, -, hget⟩ := malloc_some hf hr
  have hne : s ≠ m.heap.next := Heap.ne_next hg
  obtain ⟨-, -, -, hbsize, -⟩ := resize_some hb
  have hbsize : sdsHdrSize type + b.buf.length = size := hbsize
  have hs1 : m1.heap.get s = some h := by rw [hget, Function.update_of_ne hne, hg]
  have hread : (Src.sds s 0).read m1 n = some ((h.buf.drop 0).take n) := by
    rw [read_sds hs1 hpos, Lib.read, if_pos (by omega)]
  have hmeet : (Src.sds s 0).meets m.heap.next 0 n = false := by simp [Src.meets, hne]
  obtain ⟨m2, hcpy⟩ := memcpy_isSome hmeet hread (by rw [hget, Function.update_self]) (by
    rw [List.drop_zero, List.length_take]
    omega)
  obtain ⟨-, -, -, b1, -, -, -, -, hget2⟩ := memcpy_some hcpy
  have hs2 : m2.heap.get s = some h := by rw [hget2, Function.update_of_ne hne, hs1]
  obtain ⟨m3, hfree⟩ := sdsfree_isSome hs2
  exact ⟨m1, m2, m3, hr, hcpy, hfree⟩

/-- The header and the block of a string without free space. -/
theorem Text.full (ht : Text h cs) (hty : cs.length < 2 ^ b.type.bits) (hbuf : cs.length < b.buf.length)
    (htake : b.buf.take (cs.length + 1) = h.buf.take (cs.length + 1)) :
    Text ((b.sdssetlen cs.length).sdssetalloc cs.length) cs ∧
      ((b.sdssetlen cs.length).sdssetalloc cs.length).sdsavail = 0 := by
  obtain ⟨htype, hlen, halloc, hbuf'⟩ := setHeader_some (h := b) (n := cs.length) rfl
  rw [Nat.mod_eq_of_lt hty] at hlen halloc
  generalize (b.sdssetlen cs.length).sdssetalloc cs.length = b' at *
  rw [← htype] at hty halloc
  rw [← hbuf'] at hbuf htake
  refine ⟨⟨sound_full hty hlen halloc hbuf, hlen, htake.trans ht.text⟩, ?_⟩
  by_cases h5 : b'.type = .type5
  · exact sdsavail_type5 h5
  · rw [sdsavail_eq h5 (by rw [hlen, halloc h5]) (by rw [halloc h5]; exact hty), hlen, halloc h5, Nat.sub_self]

/-- **sdsRemoveFreeSpace**: the same bytes in a block that has no room for more. -/
theorem sdsRemoveFreeSpace_text (ho : Texts g ((p, cs) :: l) m) (hlen : cs.length + 18 < 2 ^ 64) :
    Grants m (sdsRemoveFreeSpace m p)
      fun m' q => Texts g ((q, cs) :: l) m' ∧ ∃ b, m'.heap.get q = some b ∧ b.sdsavail = 0 := by
  obtain ⟨h, hg, ht, -⟩ := Owns.head ho
  have hgc : m.calm.heap.get p = some h := hg
  have hs := ht.sound
  have hroom := hs.room
  have hhl := ht.len
  have hcalm : ∃ mc q b, sdsRemoveFreeSpace m.calm p = some (mc, some q) ∧
      Moved m.heap.get p q b mc.heap.get ∧ Text b cs ∧ b.sdsavail = 0 := by
    unfold sdsRemoveFreeSpace sdsRemoveFreeSpaceWith
    rw [hgc, Option.bind_some, hhl]
    dsimp only
    have hmod : ∀ type, (sdsHdrSize type + cs.length + 1) % 2 ^ 64 = sdsHdrSize type + cs.length + 1 := by
      intro type
      have hhdr := sdsHdrSize_le type
      exact Nat.mod_eq_of_lt (by omega)
    by_cases htype : h.type = sdsReqType cs.length ∨ sdsReqType cs.length ≠ .type5 ∧ sdsReqType cs.length ≠ .type8
    · -- the same header
      have hfits : sdsHdrSize h.type ≤ sdsHdrSize h.type + cs.length + 1 := by omega
      obtain ⟨b, hb⟩ : ∃ b, h.resize (sdsHdrSize h.type + cs.length + 1) = some b := resize_isSome hfits
      have hr : m.calm.realloc p (sdsHdrSize h.type + cs.length + 1) =
          some (⟨(m.heap.put p none).alloc b, []⟩, some m.heap.next) := by
        rw [realloc_eq rfl hgc, hb]
        rfl
      obtain ⟨b0, hb0, -, -, hmv⟩ := realloc_some rfl hgc hr
      obtain rfl := Option.some.inj (hb.symm.trans hb0)
      obtain ⟨hbtype, hblen, -, hbsize, hbtake⟩ := resize_some hb
      have hty : cs.length < 2 ^ b.type.bits := by
        rw [hbtype, ← hhl]
        exact hs.len_lt
      obtain ⟨htext, havail⟩ := ht.full hty (by omega) (hbtake _ (by omega) (by omega))
      have hsame : b.sdssetlen cs.length = b := by
        unfold Sdshdr.sdssetlen
        rw [Nat.mod_eq_of_lt hty, ← hhl, ← hblen]
      rw [hsame] at htext havail
      obtain ⟨m2, hm⟩ := modify_isSome (f := fun b => some (b.sdssetalloc cs.length)) hmv.get_self rfl
      obtain ⟨b2, hb2, -, hget⟩ := modify_get hmv.get_self hm
      obtain rfl := Option.some.inj hb2
      refine ⟨m2, m.heap.next, _, ?_, hmv.comp (.stay hget), htext, havail⟩
      rw [if_pos htype, hmod, ifNotNull_some hr]
      show (Mem.modify _ m.calm.heap.next _).map _ = _
      rw [hm]
      rfl
    · -- another header, and the bytes are copied
      have hfit : cs.length + 1 ≤ h.buf.length := by omega
      obtain ⟨m1, m2, m3, hr, hcpy, hfree⟩ := copy_isSome (m := m.calm) rfl hgc
        (show sdsHdrSize (sdsReqType cs.length) + (cs.length + 1) ≤ sdsHdrSize (sdsReqType cs.length) + cs.length + 1 by omega)
        (Nat.succ_pos _) hfit
      obtain ⟨-, -, b, hmv, hbtype, hbsize, hble, hbtake⟩ := copy_some rfl hgc (Nat.succ_pos _) hr hcpy hfree
      have hty : cs.length < 2 ^ b.type.bits := hbtype ▸ sdsReqType_lt (by omega)
      obtain ⟨htext, havail⟩ := ht.full hty hble hbtake
      obtain ⟨m4, hm⟩ := modify_isSome (f := fun b => some ((b.sdssetlen cs.length).sdssetalloc cs.length)) hmv.get_self rfl
      obtain ⟨b2, hb2, -, hget⟩ := modify_get hmv.get_self hm
      obtain rfl := Option.some.inj hb2
      refine ⟨m4, _, _, ?_, hmv.comp (.stay hget), htext, havail⟩
      rw [if_neg htype, hmod, ifNotNull_some hr, hcpy, Option.bind_some, hfree, Option.bind_some, hm]
      rfl
  obtain ⟨mc, q, b, hr, hmv, htext, havail⟩ := hcalm
  refine (granted_removeFreeSpace mc q hr).mono ?_
  rintro m' q' ⟨rfl, hheap⟩
  refine ⟨?_, b, ?_, havail⟩
  · unfold Texts
    rw [hheap]
    exact Owns.moved ho hmv htext
  · rw [hheap]
    exact hmv.get_self

/-! ### New strings -/

/-- **sdsdup** -/
theorem sdsdup_text (ho : Texts g l m) (hs : (s, ds) ∈ l) (hlen : ds.length + 18 < 2 ^ 64) :
    Grants m (sdsdup m s) fun m' q => Texts g ((q, ds) :: l) m' := by
  obtain ⟨h, hg, ht⟩ := Owns.get_of_mem ho hs
  unfold sdsdup
  rw [hg, Option.bind_some, ht.len]
  exact sdsnewlen_text ho (by rintro ⟨⟩) (by rintro ⟨⟩) (Texts.read_mem ho hs) hlen

/-- **sdsfromlonglong** -/
theorem sdsfromlonglong_text (ho : Texts g l m) (value : Int64) :
    Grants m (sdsfromlonglong m value) fun m' q => Texts g ((q, decimal value.toInt) :: l) m' := by
  obtain ⟨rest, hbuf⟩ := sdsll2str_buf value
  have h20 := decimal_int64_length value
  unfold sdsfromlonglong
  rw [hbuf, Option.bind_some]
  exact sdsnewlen_text ho (by rintro ⟨⟩) (by rintro ⟨⟩) (ext_read _ rest m) (by omega)

end Room

end BeanRaft.Slice
