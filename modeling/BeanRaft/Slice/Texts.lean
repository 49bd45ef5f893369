import BeanRaft.Lib.Owned
import BeanRaft.Slice.Allocator

/-!
# BeanRaft.Slice.Texts — what the callers of the string functions rely on

* `Text h cs`: the string `h` holds the bytes `cs`, and its header agrees with its block.  `Texts g l m`: the memory is
  the frame `g` and a string for each entry of `l`.
* `Grants`: a call that makes or moves a string either does so, or returns NULL for an allocation that failed and
  leaves the heap as it was.  `granted_sdscatlen`, `granted_sdsnewlen`: what the calm memory does is granted.
* `sdscatlen_text`, `sdsnewlen_text`, `sdsempty_text`: the functions on texts.
-/

namespace BeanRaft.Slice

open CInt Lib

/-! ## Texts -/

/-- A sound string with the bytes `cs` and its null term. -/
structure Text (h : Sdshdr) (cs : List UInt8) : Prop where
  sound : Sound h
  len : h.len = cs.length
  text : h.buf.take (cs.length + 1) = cs.map some ++ [some 0]

/-- The strings of `l` are beside the frame `g`. -/
def Texts (g : Nat → Option Sdshdr) (l : List (Ptr × List UInt8)) (m : Mem) : Prop := Owns Text g l m.heap.get

section Text

variable {g : Nat → Option Sdshdr} {l : List (Ptr × List UInt8)} {m m' : Mem} {h b : Sdshdr} {cs ds : List UInt8}
  {p q : Ptr} {t : Src} {n : Nat}

theorem Text.of_catted (ht : Text h cs) (hs : Sound b) (hlen : b.len = h.len + ds.length)
    (hbuf : b.buf.take (h.len + ds.length + 1) = h.buf.take h.len ++ ds.map some ++ [some 0]) : Text b (cs ++ ds) := by
  have hold : h.buf.take h.len = cs.map some := by
    have htake := congrArg (List.take cs.length) ht.text
    rw [List.take_take, Nat.min_eq_left (Nat.le_succ _)] at htake
    rw [ht.len, htake, List.take_left']
    exact List.length_map some
  rw [ht.len] at hlen
  rw [hold, ht.len] at hbuf
  refine ⟨hs, by rw [hlen, List.length_append], ?_⟩
  rw [List.length_append, List.map_append]
  exact hbuf

/-- The bytes and the null term are there to be read. -/
theorem Text.read (ht : Text h cs) : Lib.read h.buf 0 cs.length = some (cs.map some) := by
  have hroom := ht.sound.room
  have hlen := ht.len
  have htake := congrArg (List.take cs.length) ht.text
  rw [List.take_take, Nat.min_eq_left (Nat.le_succ _), List.take_left' (List.length_map some)] at htake
  unfold Lib.read
  rw [if_pos (by omega), List.drop_zero, htake]

/-- The bytes of a string of the memory. -/
theorem Texts.read_mem (ho : Texts g l m) (hq : (q, ds) ∈ l) : (Src.sds q 0).read m ds.length = some (ds.map some) := by
  obtain ⟨b, hb, htext⟩ := Owns.get_of_mem ho hq
  unfold Src.read
  split_ifs with hzero
  · rw [List.length_eq_zero_iff.mp hzero]
    rfl
  · have hbytes : (Src.sds q 0).bytes m = some b.buf := by
      show (m.heap.get q).bind _ = _
      rw [hb]
      simp
    rw [hbytes]
    exact htext.read

/-- Two strings of the memory are at two places, so the source is not the string that is appended to. -/
theorem Texts.read (ho : Texts g ((p, cs) :: l) m) (hq : (q, ds) ∈ l) :
    (Src.sds q 0).read m ds.length = some (ds.map some) ∧ (Src.sds q 0).inside p = false := by
  refine ⟨ho.read_mem (List.mem_cons_of_mem _ hq), decide_eq_false fun hqp => ?_⟩
  have hnodup := ho.nodup
  rw [List.map_cons, List.nodup_cons] at hnodup
  refine hnodup.1 ?_
  exact List.mem_map.mpr ⟨(q, ds), hq, hqp⟩

/-- The first bytes of an array of the caller. -/
theorem ext_read (cs : List UInt8) (rest : List Byte) (m : Mem) : (Src.ext (cs.map some ++ rest)).read m cs.length =
    some (cs.map some) := by
  unfold Src.read
  split_ifs with hzero
  · rw [List.length_eq_zero_iff.mp hzero]
    rfl
  · show Lib.read (cs.map some ++ rest) 0 cs.length = _
    unfold Lib.read
    rw [if_pos (by rw [List.length_append, List.length_map]; omega), List.drop_zero,
      List.take_left' (List.length_map some)]

end Text

/-! ## Calls under an allocator that may fail -/

/-- NULL is returned for an allocation that failed and the heap is as it was, or a string is and `P` holds. -/
def Grants (m : Mem) (r : Option (Mem × Option Ptr)) (P : Mem → Ptr → Prop) : Prop :=
  ∃ m', m'.fails <:+ m.fails ∧
    (r = some (m', none) ∧ m'.heap = m.heap ∧ true ∈ m.fails ∨ ∃ q, r = some (m', some q) ∧ P m' q)

/-- What the calm memory returns is granted. -/
def Granted (m : Mem) (r calm : Option (Mem × Option Ptr)) : Prop :=
  ∀ mc q, calm = some (mc, some q) → Grants m r fun m' q' => q' = q ∧ m'.heap = mc.heap

section Grants

variable {m m' : Mem} {r : Option (Mem × Option Ptr)} {P Q : Mem → Ptr → Prop} {p : Ptr} {t : Src} {n : Nat}
  {type : SdsType}

theorem Grants.mono (h : Grants m r P) (himp : ∀ m' q, P m' q → Q m' q) : Grants m r Q := by
  obtain ⟨m', hfails, hnull | ⟨q, hq, hP⟩⟩ := h
  · exact ⟨m', hfails, .inl hnull⟩
  · exact ⟨m', hfails, .inr ⟨q, hq, himp m' q hP⟩⟩

/-- With an allocator that always succeeds there is a string. -/
theorem Grants.calm (h : Grants m r P) (hf : m.fails = []) : ∃ m' q, r = some (m', some q) ∧ m'.fails = [] ∧ P m' q := by
  obtain ⟨m', hfails, ⟨-, -, htrue⟩ | ⟨q, hq, hP⟩⟩ := h
  · rw [hf] at htrue
    cases htrue
  · rw [hf] at hfails
    exact ⟨m', q, hq, List.suffix_nil.mp hfails, hP⟩

/-- The operation does the same in the calm memory, and allocates nothing. -/
def Steady (f : Mem → Option Mem) : Prop :=
  ∀ m, f m.calm = (f m).map Mem.calm ∧ ∀ m', f m = some m' → m'.fails = m.fails

theorem steady_modify (f : Sdshdr → Option Sdshdr) : Steady fun m => m.modify p f := by
  refine fun m => ⟨modify_calm f, fun m' h => ?_⟩
  obtain ⟨heap, -, rfl⟩ := Option.map_eq_some_iff.mp h
  rfl

theorem steady_memcpy (off : Nat) : Steady fun m => m.memcpy p off t n := by
  refine fun m => ⟨memcpy_calm off, fun m' h => ?_⟩
  obtain ⟨-, bs, b, b', -, -, -, hf, -⟩ := memcpy_some h
  exact hf

theorem steady_sdsfree : Steady fun m => m.sdsfree (some p) := by
  refine fun m => ⟨sdsfree_calm, fun m' h => ?_⟩
  exact (sdsfree_some h).2.1

theorem Steady.ite {f : Mem → Option Mem} (hf : Steady f) (c : Prop) [Decidable c] :
    Steady fun m => if c then f m else some m := by
  intro m
  split_ifs
  · exact hf m
  · exact ⟨rfl, fun m' h => by rw [Option.some.inj h]⟩

theorem Steady.bind {f k : Mem → Option Mem} (hf : Steady f) (hk : Steady k) : Steady fun m => (f m).bind k := by
  intro m
  obtain ⟨hcalm, hfails⟩ := hf m
  dsimp only
  rw [hcalm]
  cases hm : f m with
  | none => exact ⟨rfl, fun _ h => by cases h⟩
  | some m1 =>
    obtain ⟨hcalm1, hfails1⟩ := hk m1
    refine ⟨hcalm1, fun m' h => ?_⟩
    rw [hfails1 m' h, hfails m1 hm]

/-- The rest of a function, after its allocation: steady operations, and then a pointer is returned. -/
def SteadyEnd (k : Mem → Option (Mem × Option Ptr)) : Prop := ∃ q f, Steady f ∧ ∀ m, k m = (f m).map (·, some q)

theorem Steady.last {f : Mem → Option Mem} (hf : Steady f) : SteadyEnd fun m => (f m).map (·, some p) :=
  ⟨p, f, hf, fun _ => rfl⟩

theorem Steady.before {f : Mem → Option Mem} {k : Mem → Option (Mem × Option Ptr)} (hf : Steady f) (hk : SteadyEnd k) :
    SteadyEnd fun m => (f m).bind k := by
  obtain ⟨q, f', hf', hk⟩ := hk
  refine ⟨q, fun m => (f m).bind f', hf.bind hf', fun m => ?_⟩
  rw [Option.map_bind, funext hk]
  rfl

theorem granted_malloc : Granted m (m.malloc type n) (m.calm.malloc type n) := by
  intro mc q h
  obtain ⟨b, hb, he⟩ := Option.map_eq_some_iff.mp
    (show (Sdshdr.resize ⟨type, 0, 0, []⟩ n).map (fun b => ((⟨m.heap.alloc b, []⟩ : Mem), some m.heap.next)) = _ from h)
  cases he
  unfold Mem.malloc Grants
  split
  · next fails hfails => exact ⟨⟨m.heap, fails⟩, by rw [hfails]; exact List.suffix_cons .., .inl ⟨rfl, rfl, by simp [hfails]⟩⟩
  · refine ⟨⟨m.heap.alloc b, m.fails.tail⟩, List.tail_suffix _, .inr ⟨_, ?_, rfl, rfl⟩⟩
    rw [hb]
    rfl

theorem granted_realloc : Granted m (m.realloc p n) (m.calm.realloc p n) := by
  intro mc q h
  obtain ⟨h0, hg, h⟩ := Option.bind_eq_some_iff.mp
    (show (m.heap.get p).bind (fun h => (h.resize n).map fun b =>
      ((⟨(m.heap.put p none).alloc b, []⟩ : Mem), some m.heap.next)) = _ from h)
  obtain ⟨b, hb, he⟩ := Option.map_eq_some_iff.mp h
  cases he
  unfold Mem.realloc Grants
  split
  · next fails hfails => exact ⟨⟨m.heap, fails⟩, by rw [hfails]; exact List.suffix_cons .., .inl ⟨rfl, rfl, by simp [hfails]⟩⟩
  · refine ⟨⟨(m.heap.put p none).alloc b, m.fails.tail⟩, List.tail_suffix _, .inr ⟨_, ?_, rfl, rfl⟩⟩
    rw [hg, Option.bind_some, hb]
    rfl

/-- What is done with a block that was granted is the same. -/
theorem Granted.ifNotNull {c c' : Option (Mem × Option Ptr)} {k : Mem → Ptr → Option (Mem × Option Ptr)}
    (hc : Granted m c c') (hk : ∀ q, SteadyEnd fun m => k m q) : Granted m (ifNotNull c k) (ifNotNull c' k) := by
  intro mc q h
  obtain ⟨m1, o, h1, ho⟩ := ifNotNull_inv h
  obtain ⟨q1, rfl, hk1⟩ := ho.resolve_left fun hnull => by cases hnull.2
  obtain ⟨q2, f, hf, hkf⟩ := hk q1
  dsimp only at hkf
  rw [hkf] at hk1
  obtain ⟨m2, h2, he⟩ := Option.map_eq_some_iff.mp hk1
  cases he
  obtain ⟨m', hfails, ⟨rfl, hheap, htrue⟩ | ⟨q', rfl, hq, hheap⟩⟩ := hc m1 q1 h1
  · exact ⟨m', hfails, .inl ⟨rfl, hheap, htrue⟩⟩
  · -- the continuation runs in the calm memory with the same heap
    subst hq
    obtain ⟨hcalm', hfails'⟩ := hf m'
    obtain ⟨hcalm1, -⟩ := hf m1
    have hsame : m'.calm = m1.calm := by
      unfold Mem.calm
      rw [hheap]
    rw [hsame, hcalm1, h2] at hcalm'
    cases hk2 : f m' with
    | none =>
      rw [hk2] at hcalm'
      cases hcalm'
    | some m2' =>
      rw [hk2] at hcalm'
      have hheap2 : mc.calm.heap = m2'.calm.heap := congrArg Mem.heap (Option.some.inj hcalm')
      refine ⟨m2', (hfails' m2' hk2).symm ▸ hfails, .inr ⟨q, ?_, rfl, hheap2.symm⟩⟩
      rw [ifNotNull_some rfl, hkf, hk2]
      rfl

theorem granted_makeRoom : Granted m (sdsMakeRoomFor m p n) (sdsMakeRoomFor m.calm p n) := by
  intro mc q h
  unfold sdsMakeRoomFor sdsMakeRoomWith at h ⊢
  obtain ⟨b, hb, h⟩ := Option.bind_eq_some_iff.mp h
  have hb' : m.heap.get p = some b := hb
  rw [hb', Option.bind_some]
  dsimp only at h ⊢
  split_ifs at h ⊢ with havail htype
  · cases h
    exact ⟨m, List.suffix_refl _, .inr ⟨p, rfl, rfl, rfl⟩⟩
  · exact granted_realloc.ifNotNull (fun q => (steady_modify _).last) mc q h
  · exact granted_malloc.ifNotNull
      (fun q => (steady_memcpy 0).before (steady_sdsfree.before (steady_modify _).last)) mc q h

theorem granted_sdscatlen : Granted m (sdscatlen m p t n) (sdscatlen m.calm p t n) := by
  intro mc q h
  unfold sdscatlen at h ⊢
  obtain ⟨b, hb, h⟩ := Option.bind_eq_some_iff.mp h
  have hb' : m.heap.get p = some b := hb
  rw [hb', Option.bind_some]
  exact granted_makeRoom.ifNotNull (fun q => (steady_memcpy b.len).before (steady_modify _).last) mc q h

/-- `memset` of a block that was not granted is the one case in which a new string is no NULL but undefined. -/
theorem granted_sdsnewlen (hnull : t ≠ .null) : Granted m (sdsnewlen m t n) (sdsnewlen m.calm t n) := by
  intro mc q h
  unfold sdsnewlen at h ⊢
  dsimp only at h ⊢
  rw [if_neg fun h => hnull h.2] at h ⊢
  generalize (if sdsReqType n = .type5 ∧ n = 0 then SdsType.type8 else sdsReqType n) = type at h ⊢
  exact granted_malloc.ifNotNull
    (fun q => (steady_modify _).before (((steady_memcpy 0).ite _).before (steady_modify _).last)) mc q h

end Grants

/-! ## The functions on texts -/

/-- `sdscatsds` (line 420) -/
def sdscatsds (m : Mem) (s t : Ptr) : Option (Mem × Option Ptr) :=
  (m.heap.get t).bind fun h => sdscatlen m s (.sds t 0) h.len

section Texts

variable {g : Nat → Option Sdshdr} {l : List (Ptr × List UInt8)} {m : Mem} {cs ds : List UInt8} {p : Ptr} {t : Src}

theorem sdscatlen_text (ho : Texts g ((p, cs) :: l) m) (hin : t.inside p = false)
    (hread : t.read m ds.length = some (ds.map some)) (hroomy : Roomy cs.length ds.length) :
    Grants m (sdscatlen m p t ds.length) fun m' q => Texts g ((q, cs ++ ds) :: l) m' := by
  obtain ⟨h, hg, htext, -⟩ := ho.head
  have hgc : m.calm.heap.get p = some h := hg
  obtain ⟨mc, q, hcat, b, -, hmv, hs, hlen, hbuf⟩ : ∃ mc q, sdscatlen m.calm p t ds.length = some (mc, some q) ∧
      Catted m.calm p h (ds.map some) mc q := by
    rw [← read_calm] at hread
    rw [← htext.len] at hroomy
    by_cases havail : ds.length ≤ h.sdsavail
    · obtain ⟨mc, hcat⟩ := sdscatlen_stay rfl hgc htext.sound havail (Src.meets_of_inside hin _ _) hread
      exact ⟨mc, p, hcat⟩
    · obtain ⟨mc, q, hcat, -, hcatted⟩ :=
        sdscatlen_move rfl hgc htext.sound (Nat.lt_of_not_le havail) hin hroomy hread
      exact ⟨mc, q, hcat, hcatted⟩
  rw [List.length_map] at hlen hbuf
  refine (granted_sdscatlen mc q hcat).mono ?_
  rintro m' q' ⟨rfl, hheap⟩
  unfold Texts
  rw [hheap]
  exact Owns.moved ho hmv (htext.of_catted hs hlen hbuf)

/-- Another string is appended. -/
theorem sdscatsds_text {s : Ptr} (ho : Texts g ((p, cs) :: l) m) (ht : (s, ds) ∈ l) (hroomy : Roomy cs.length ds.length) :
    Grants m (sdscatsds m p s) fun m' q => Texts g ((q, cs ++ ds) :: l) m' := by
  obtain ⟨h, hg, htext⟩ := Owns.get_of_mem ho (List.mem_cons_of_mem _ ht)
  obtain ⟨hread, hin⟩ := Texts.read ho ht
  unfold sdscatsds
  rw [hg, Option.bind_some, htext.len]
  exact sdscatlen_text ho hin hread hroomy

/-- The bytes of a string literal or of a local array. -/
theorem sdscatlen_ext (ho : Texts g ((p, cs) :: l) m) (rest : List Byte) (hroomy : Roomy cs.length ds.length) :
    Grants m (sdscatlen m p (.ext (ds.map some ++ rest)) ds.length) fun m' q => Texts g ((q, cs ++ ds) :: l) m' :=
  sdscatlen_text ho rfl (ext_read ds rest m) hroomy

theorem sdscat_ext (ho : Texts g ((p, cs) :: l) m) (h0 : 0 ∉ ds) (rest : List Byte)
    (hroomy : Roomy cs.length ds.length) : Grants m (sdscat m p (.ext (ds.map some ++ some 0 :: rest)))
      fun m' q => Texts g ((q, cs ++ ds) :: l) m' := by
  have hlen : (Src.ext (ds.map some ++ some 0 :: rest)).strlen m = some ds.length := strlenOf_text h0 rest
  unfold sdscat
  rw [hlen, Option.bind_some]
  exact sdscatlen_ext ho (some 0 :: rest) hroomy

theorem sdsnewlen_text (ho : Texts g l m) (hnull : t ≠ .null) (hinit : t ≠ .noinit)
    (hread : t.read m ds.length = some (ds.map some)) (hlen : ds.length + 18 < 2 ^ 64) :
    Grants m (sdsnewlen m t ds.length) fun m' q => Texts g ((q, ds) :: l) m' := by
  have hreadc : t.read m.calm ds.length = some (ds.map some) := by rw [read_calm, hread]
  obtain ⟨⟨mc, o⟩, hnew⟩ := sdsnewlen_isSome (m := m.calm) rfl hlen fun _ _ => ⟨_, hreadc⟩
  obtain ⟨q, b, rfl, hdead, -, hget, hs, hterm, hb, -, hbuf⟩ := sdsnewlen_cases rfl hnew
  refine (granted_sdsnewlen hnull mc q hnew).mono ?_
  rintro m' q' ⟨rfl, hheap⟩
  unfold Texts
  rw [hheap]
  refine Owns.alloc ho hdead ⟨hs, hb, ?_⟩ hget
  have hlt : ds.length < b.buf.length := by
    have hroom := hs.room
    omega
  have hnul : b.buf[ds.length]? = some (some 0) := by
    rw [← hb]
    exact hterm
  rw [List.take_add_one, hbuf _ hnull hinit hreadc, hnul]
  rfl

theorem sdsempty_text (ho : Texts g l m) : Grants m (sdsempty m) fun m' q => Texts g ((q, []) :: l) m' := by
  have hread : (Src.ext [some 0]).read m ([] : List UInt8).length = some (([] : List UInt8).map some) := rfl
  exact sdsnewlen_text ho (by decide) (by decide) hread (by decide)

theorem sdsfree_text (ho : Texts g ((p, cs) :: l) m) :
    ∃ m', m.sdsfree (some p) = some m' ∧ m'.fails = m.fails ∧ Texts g l m' := by
  obtain ⟨h, hg, -, -⟩ := ho.head
  obtain ⟨m', hfree⟩ := sdsfree_isSome hg
  obtain ⟨-, hf, hget⟩ := sdsfree_some hfree
  exact ⟨m', hfree, hf, Owns.free ho hget⟩

end Texts

end BeanRaft.Slice
