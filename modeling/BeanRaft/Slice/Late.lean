import BeanRaft.Slice.InTime

/-!
# BeanRaft.Slice.Late — the loop over a format in any state

What holds of the loop of `sdscatvfmt` also after a source in the string itself was read too late.

* `makeRoom_next`: an address is not used twice, so a string that has moved does not come back.
* `Past`: as long as the string has not moved, it has the bytes that it had at the call.
* `Past.loop`: the loop appends as many bytes as the format stands for, or more, and after a move it returns only when
  nothing in the old block was left to be read.
-/

namespace BeanRaft.Slice

open CInt Lib

/-! ## Addresses are not used twice -/

section Next

variable {m m' : Mem} {s q : Ptr} {h : Sdshdr} {r : Option Ptr} {n off : Nat} {t : Src}

theorem modify_next {f : Sdshdr → Option Sdshdr} (hr : m.modify s f = some m') : m'.heap.next = m.heap.next := by
  obtain ⟨heap, hheap, rfl⟩ := Option.map_eq_some_iff.mp hr
  exact Heap.next_modify hheap

theorem memcpy_next (hr : m.memcpy s off t n = some m') : m'.heap.next = m.heap.next := by
  unfold Mem.memcpy at hr
  split_ifs at hr
  obtain ⟨bs, -, hm⟩ := Option.bind_eq_some_iff.mp hr
  exact modify_next hm

/-- A string that is moved is moved to a new address. -/
theorem makeRoom_next (hf : m.fails = []) (hg : m.heap.get s = some h) (hn : h.sdsavail < n)
    (hr : sdsMakeRoomFor m s n = some (m', r)) : r = some m.heap.next ∧ m'.heap.next = m.heap.next + 1 := by
  unfold sdsMakeRoomFor sdsMakeRoomWith at hr
  rw [hg, Option.bind_some, if_neg (Nat.not_le_of_lt hn)] at hr
  dsimp only at hr
  split_ifs at hr
  · obtain ⟨m1, o, h1, ho⟩ := ifNotNull_inv hr
    rw [realloc_eq hf hg] at h1
    obtain ⟨b, -, he⟩ := Option.map_eq_some_iff.mp h1
    cases he
    obtain ⟨q, hq, hk⟩ := ho.resolve_left fun hnull => Option.some_ne_none _ hnull.1
    obtain rfl := Option.some.inj hq
    obtain ⟨m2, hm, he⟩ := Option.map_eq_some_iff.mp hk
    cases he
    refine ⟨rfl, (modify_next hm).trans ?_⟩
    rw [Heap.next_alloc, Heap.next_put]
  · obtain ⟨m1, h1, hk⟩ := ifNotNull_malloc hf hr
    obtain ⟨m2, hcpy, hk⟩ := Option.bind_eq_some_iff.mp hk
    obtain ⟨m3, hfree, hk⟩ := Option.bind_eq_some_iff.mp hk
    obtain ⟨m4, hmod, he⟩ := Option.map_eq_some_iff.mp hk
    cases he
    rw [malloc_eq hf] at h1
    obtain ⟨b, -, he⟩ := Option.map_eq_some_iff.mp h1
    cases he
    refine ⟨rfl, ?_⟩
    rw [modify_next hmod, next_of_sdsfree hfree, memcpy_next hcpy, Heap.next_alloc]

theorem room_next (hf : m.fails = []) (hg : m.heap.get s = some h) (hn : h.sdsavail < n)
    (hr : room m s n = some (m', q)) : q = m.heap.next ∧ m'.heap.next = m.heap.next + 1 := by
  obtain ⟨⟨m1, o⟩, h1, ho⟩ := Option.bind_eq_some_iff.mp hr
  obtain ⟨rfl, hnext⟩ := makeRoom_next hf hg hn h1
  cases ho
  exact ⟨rfl, hnext⟩

end Next

/-! ## The string that is written -/

/-- The string has the bytes that it had as long as it has not moved, and it does not come back to its old place. -/
structure Past (m : Mem) (p : Ptr) (h0 : Sdshdr) (σ : FmtState) (h : Sdshdr) : Prop where
  writing : Writing σ h
  moved : Moved m.heap.get p σ.s h σ.mem.heap.get
  next : p < σ.mem.heap.next
  len : h0.len ≤ σ.i
  here : σ.s = p → h.buf.take h0.len = h0.buf.take h0.len

section Past

variable {m m1 : Mem} {p s1 : Ptr} {h0 h : Sdshdr} {σ σ' : FmtState} {t bs : List Byte} {u : Src} {a : VaArg}
  {args : List VaArg} {next c : UInt8} {n l : Nat}

/-- Making room for a byte leaves the string where it is, or moves it away. -/
theorem Past.ensure (hp : Past m p h0 σ h)
    (hr : (if h.sdsavail < 1 then room σ.mem σ.s 1 else some (σ.mem, σ.s)) = some (m1, s1)) :
    ∃ h1, Past m p h0 { σ with mem := m1, s := s1 } h1 ∧ (s1 = p → σ.s = p ∧ 1 ≤ h.sdsavail ∧ h1 = h) ∧
      (Sound h1 → 1 ≤ h1.sdsavail) := by
  have hw := hp.writing
  have hlt := hp.next
  by_cases havail : h.sdsavail < 1
  · have hr' := hr
    rw [if_pos havail] at hr'
    obtain ⟨hq, hnext⟩ := room_next hw.fails hw.get havail hr'
    obtain ⟨b, hf1, hmv, hlen, hb⟩ := ensure_cases hw.fails hw.get hw.state (Nat.le_refl 1) hr
    have hne : s1 ≠ p := by
      rw [hq]
      exact Nat.ne_of_gt hlt
    have hlt1 : p < m1.heap.next := by
      rw [hnext]
      exact Nat.lt_succ_of_lt hlt
    refine ⟨b, ⟨⟨hf1, hmv.get_self, hlen.trans hw.len, hb.imp And.left id⟩, hp.moved.comp hmv, hlt1, hp.len,
      fun h => absurd h hne⟩, fun h => absurd h hne, fun hs => ?_⟩
    rcases hb with ⟨-, hb⟩ | hc
    · exact hb
    · have hsmall := hc.small
      have hroom := hs.room
      omega
  · rw [if_neg havail] at hr
    cases hr
    exact ⟨h, hp, fun h => ⟨h, Nat.le_of_not_lt havail, rfl⟩, fun _ => Nat.le_of_not_lt havail⟩

/-- A turn may move the string away, but never back; a source in the old block is not read any more then. -/
theorem Past.put (hp : Past m p h0 σ h) (hr : σ.put u l = some σ') :
    ∃ h', Past m p h0 σ' h' ∧ σ'.i = σ.i + l ∧ σ'.args = σ.args ∧ (σ'.s = p → σ.s = p ∧ l ≤ h.sdsavail) ∧
      (u.inside p = true → σ.s = p → σ'.s = p) := by
  have hw := hp.writing
  have hlt := hp.next
  obtain ⟨b, hmv, hwr⟩ := put_cases hw hr
  unfold FmtState.put at hr
  rw [hw.get, Option.bind_some] at hr
  obtain ⟨⟨m1, s1⟩, hroom, hr⟩ := Option.bind_eq_some_iff.mp hr
  obtain ⟨m2, hcpy, hr⟩ := Option.bind_eq_some_iff.mp hr
  obtain ⟨m3, hinc, he⟩ := Option.map_eq_some_iff.mp hr
  cases he
  have hnext : m3.heap.next = m1.heap.next := (modify_next hinc).trans (memcpy_next hcpy)
  obtain ⟨-, bs, b0, b1, hread, hb0, hwrite, -, hget2⟩ := memcpy_some hcpy
  obtain ⟨b2, hb2, -, hget3⟩ := modify_get (by rw [hget2, Function.update_self]) hinc
  obtain rfl := Option.some.inj hb2
  have hb : b = b1.sdsinclen l := by
    have hget : m3.heap.get s1 = some b := hwr.get
    rw [hget3, Function.update_self] at hget
    exact (Option.some.inj hget).symm
  by_cases havail : h.sdsavail < l
  · rw [if_pos havail] at hroom
    obtain ⟨hq, hnext1⟩ := room_next hw.fails hw.get havail hroom
    have hne : s1 ≠ p := by
      rw [hq]
      exact Nat.ne_of_gt hlt
    have hlt3 : p < m3.heap.next := by
      rw [hnext, hnext1]
      exact Nat.lt_succ_of_lt hlt
    refine ⟨b, ⟨hwr, hp.moved.comp hmv, hlt3, Nat.le_trans hp.len (Nat.le_add_right _ _), fun h => absurd h hne⟩, rfl,
      rfl, fun h => absurd h hne, fun hin hσ => ?_⟩
    -- the old block is dead
    obtain ⟨off, rfl⟩ := Src.exists_place hin
    have hl : h.len < 2 ^ h.type.bits := hw.state.elim (fun hs => hs.len_lt) (fun hc => hc.len_lt)
    obtain ⟨c, -, hmv1, -⟩ := room_cases hw.fails hw.get hl havail hroom
    have hdead : m1.heap.get p = none := by
      rw [hσ] at hmv1
      exact hmv1.dead hne
    rw [Src.read_dead hdead (Nat.zero_lt_of_lt havail)] at hread
    cases hread
  · rw [if_neg havail] at hroom
    cases hroom
    obtain rfl := Option.some.inj (hw.get.symm.trans hb0)
    obtain ⟨-, -, -, hbuf⟩ := hdr_write_some hwrite
    refine ⟨b, ⟨hwr, hp.moved.comp hmv, (hnext.symm ▸ hlt : p < m3.heap.next),
      Nat.le_trans hp.len (Nat.le_add_right _ _), fun hσ => ?_⟩, rfl, rfl, fun hσ => ⟨hσ, Nat.le_of_not_lt havail⟩,
      fun _ hσ => hσ⟩
    rw [hb, ← hp.here hσ]
    exact take_write_of_le hbuf hp.len

theorem Past.putc (hp : Past m p h0 σ h) (havail : Sound h → 1 ≤ h.sdsavail) (hr : σ.putc c = some σ') :
    ∃ h', Past m p h0 σ' h' ∧ σ'.i = σ.i + 1 ∧ σ'.args = σ.args ∧ σ'.s = σ.s := by
  have hw := hp.writing
  have hlt := hp.next
  obtain ⟨b, hmv, hwr⟩ := putc_cases hw havail hr
  obtain ⟨m1, hmod, he⟩ := Option.map_eq_some_iff.mp hr
  cases he
  obtain ⟨b2, hb2, -, hget⟩ := modify_get hw.get hmod
  obtain ⟨b1, hwrite, rfl⟩ := Option.map_eq_some_iff.mp hb2
  obtain ⟨-, -, -, hbuf⟩ := hdr_write_some hwrite
  have hb : b = b1.sdsinclen 1 := by
    have hgetb : m1.heap.get σ.s = some b := hwr.get
    rw [hget, Function.update_self] at hgetb
    exact (Option.some.inj hgetb).symm
  refine ⟨b, ⟨hwr, hp.moved.comp hmv, ((modify_next hmod).symm ▸ hlt : p < m1.heap.next),
    Nat.le_trans hp.len (Nat.le_add_right _ _), fun hσ => ?_⟩, rfl, rfl, rfl⟩
  rw [hb, ← hp.here hσ]
  exact take_write_of_le hbuf hp.len

theorem Past.with_args (hp : Past m p h0 σ h) (args : List VaArg) : Past m p h0 { σ with args := args } h :=
  ⟨hp.writing.with_args args, hp.moved, hp.next, hp.len, hp.here⟩

theorem Past.dead (hp : Past m p h0 σ h) (hne : σ.s ≠ p) : σ.mem.heap.get p = none := hp.moved.dead hne

/-- The length of a string inside is read only in place, and never less than it was. -/
theorem Past.length {off : Nat} (hp : Past m p h0 σ h) (hg : m.heap.get p = some h0) (ht0 : Terminated h0)
    (ht : (VaArg.str (.sds p off)).text m next = some t)
    (hl : (if next = 115 then (Src.sds p off).strlen σ.mem else (Src.sds p off).sdslen σ.mem) = some l) :
    σ.s = p ∧ t.length ≤ l := by
  have hσ : σ.s = p := by
    by_contra hne
    have hdead := hp.dead hne
    split_ifs at hl
    · unfold Src.strlen at hl
      rw [Src.bytes_dead hdead] at hl
      cases hl
    · rw [Src.sdslen_dead hdead] at hl
      cases hl
  refine ⟨hσ, ?_⟩
  have hget : σ.mem.heap.get p = some h := by
    rw [← hσ]
    exact hp.writing.get
  have hend := text_end hg ht0 ht
  obtain ⟨ht, -, -⟩ := text_str ht
  split_ifs at hl ht
  · exact strlenOf_mono (strlen_sds hg ht).2 (take_drop_eq (hp.here hσ) hend) (strlen_sds hget hl).2
  · have hlen := hp.len
    rw [← hp.writing.len] at hlen
    rw [(sdslen_sds hg ht).2, (sdslen_sds hget hl).2]
    exact hlen

/-- A directive appends the text of its argument or more, and reads no argument in the old block when it has moved. -/
theorem Past.directive (hp : Past m p h0 σ h) (hg : m.heap.get p = some h0) (ht0 : Terminated h0)
    (hargs : σ.args = a :: args) (ht : a.text m next = some t) (hr : σ.directive next = some σ') :
    ∃ h', Past m p h0 σ' h' ∧ σ.i + t.length ≤ σ'.i ∧ σ'.args = args ∧
      (σ'.s = p → σ.s = p ∧ t.length ≤ h.sdsavail) ∧ (σ'.s ≠ p → a.outside p) := by
  have hp' := hp.with_args args
  cases a with
  | str u =>
    rw [directive_str hargs ht] at hr
    obtain ⟨l, hl, hr⟩ := Option.bind_eq_some_iff.mp hr
    obtain ⟨h', hpast, hi, hargs', hback, hstay⟩ := hp'.put hr
    have hi' : σ'.i = σ.i + l := hi
    by_cases hin : u.inside p = true
    · obtain ⟨off, rfl⟩ := Src.exists_place hin
      obtain ⟨hσ, hle⟩ := hp.length hg ht0 ht hl
      refine ⟨h', hpast, by omega, hargs', fun hσ' => ?_, fun hne => absurd (hstay hin hσ) hne⟩
      obtain ⟨-, havail⟩ := hback hσ'
      exact ⟨hσ, Nat.le_trans hle havail⟩
    · have hout := Bool.eq_false_iff.mpr hin
      have hlen : l = t.length := by
        obtain ⟨ht, -, -⟩ := text_str ht
        split_ifs at ht hl
        · exact Option.some.inj (hl.symm.trans (Src.strlen_moved hp.moved hout ht))
        · exact Option.some.inj (hl.symm.trans (Src.sdslen_moved hp.moved hout ht))
      rw [hlen] at hi' hback
      exact ⟨h', hpast, by omega, hargs', hback, fun _ => hout⟩
  | int | uint | longlong | ulonglong =>
    obtain ⟨l, hdir⟩ := directive_num hargs (by intro u hu; cases hu) ht
    rw [hdir] at hr
    obtain ⟨h', hpast, hi, hargs', hback, -⟩ := hp'.put hr
    have hi' : σ'.i = σ.i + t.length := hi
    exact ⟨h', hpast, by omega, hargs', hback, fun _ => trivial⟩

end Past

/-! ## The loop -/

section PastLoop

variable {m m' : Mem} {p : Ptr} {h0 h : Sdshdr} {σ σ' : FmtState} {t bs : List Byte} {fmt : Src} {u : Turn}
  {args args' : List VaArg} {next c : UInt8} {f j fuel : Nat} {all fs fs' : List UInt8} {r : Option Ptr}

/-- Nothing of a format inside can be read after the string has moved. -/
theorem Past.outside_of_byte (hp : Past m p h0 σ h) (hne : σ.s ≠ p) (hc : fmt.byte σ.mem j = some c) :
    fmt.inside p = false := by
  by_contra hin
  obtain ⟨off, rfl⟩ := Src.exists_place (Bool.not_eq_false _ ▸ hin)
  unfold Src.byte at hc
  rw [Src.bytes_dead (hp.dead hne)] at hc
  cases hc

/-- The characters of the format are read as they were, or not at all. -/
theorem Past.byte (hp : Past m p h0 σ h) (hg : m.heap.get p = some h0) (ht0 : Terminated h0)
    (hfmt : fmt.IsString m all) (hdrop : all.drop f = c :: fs) (hc : fmt.byte σ.mem f = some next) : next = c := by
  have hget := getElem?_of_drop hdrop
  obtain ⟨hlt, -⟩ := List.getElem?_eq_some_iff.mp hget
  have hold := byte_of_isString hfmt (Nat.le_of_lt hlt)
  rw [List.getElem?_append_left hlt, hget] at hold
  by_cases hin : fmt.inside p = true
  · obtain ⟨off, rfl⟩ := Src.exists_place hin
    have hσ : σ.s = p := by
      by_contra hne
      exact absurd hin (Bool.eq_false_iff.mp (hp.outside_of_byte hne hc))
    have hend := isString_end hg ht0 hfmt
    have hgetσ : σ.mem.heap.get p = some h := by
      rw [← hσ]
      exact hp.writing.get
    have h1 := (byte_sds hgetσ).mp hc
    have h2 := (byte_sds hg).mp hold
    rw [← List.getElem?_take_of_lt (show off + f < h0.len by omega), hp.here hσ,
      List.getElem?_take_of_lt (show off + f < h0.len by omega), h2] at h1
    exact (Option.some.inj (Option.some.inj h1)).symm
  · obtain ⟨-, -, rest, hbytes⟩ := hfmt
    rw [Src.byte_eq hbytes, ← Src.byte_eq (Src.bytes_moved hp.moved (Bool.eq_false_iff.mpr hin) hbytes)] at hold
    exact Option.some.inj (hc.symm.trans hold)

/-- A turn of the loop that returns, up to the `switch`. -/
theorem Past.begin (hp : Past m p h0 σ h) (hr : fmtLoop fmt (fuel + 1) σ f = some (m', r))
    (hc : fmt.byte σ.mem f = some c) (hc0 : c ≠ 0) :
    ∃ σ1 h1 d, σ1.args = σ.args ∧ σ1.i = σ.i ∧ Past m p h0 σ1 h1 ∧ (σ1.s = p → σ.s = p ∧ 1 ≤ h.sdsavail ∧ h1 = h) ∧
      (Sound h1 → 1 ≤ h1.sdsavail) ∧ fmt.byte σ1.mem f = some d ∧
      (if d = 37 then (fmt.byte σ1.mem (f + 1)).bind fun next =>
        (σ1.directive next).bind fun σ => fmtLoop fmt fuel σ (f + 2)
      else (σ1.putc d).bind fun σ => fmtLoop fmt fuel σ (f + 1)) = some (m', r) := by
  have hlt : (h.sdsavail = 0) = (h.sdsavail < 1) := propext Nat.lt_one_iff.symm
  unfold fmtLoop at hr
  rw [hc, Option.bind_some, if_neg hc0, hp.writing.get, Option.bind_some] at hr
  obtain ⟨⟨m1, s1⟩, hroom, hr⟩ := Option.bind_eq_some_iff.mp hr
  obtain ⟨d, hd, hr⟩ := Option.bind_eq_some_iff.mp hr
  simp only [hlt] at hroom
  obtain ⟨h1, hpast, hback, havail⟩ := hp.ensure hroom
  exact ⟨{ σ with mem := m1, s := s1 }, h1, d, rfl, rfl, hpast, hback, havail, hd, hr⟩

/-- The end of the loop. -/
theorem Past.last (hp : Past m p h0 σ h) (hr : fmtLoop fmt (fuel + 1) σ f = some (m', r))
    (hc : fmt.byte σ.mem f = some 0) : ∃ q b, r = some q ∧ m'.heap.get q = some b ∧ σ.i = b.len := by
  unfold fmtLoop at hr
  rw [hc, Option.bind_some, if_pos rfl] at hr
  obtain ⟨m1, hmod, he⟩ := Option.map_eq_some_iff.mp hr
  cases he
  obtain ⟨b, hb, -, hget⟩ := modify_get hp.writing.get hmod
  refine ⟨σ.s, b, rfl, ?_, ?_⟩
  · rw [hget, Function.update_self]
  · rw [(hdr_write_some hb).2.1, hp.writing.len]

theorem directive_nil (hargs : σ.args = []) (hr : σ.directive next = some σ') : σ.putc next = some σ' := by
  unfold FmtState.directive at hr
  dsimp only at hr
  rw [hargs] at hr
  split_ifs at hr
  exact hr

theorem fmtLoop_byte (hr : fmtLoop fmt fuel σ f = some (m', r)) :
    ∃ n c, fuel = n + 1 ∧ fmt.byte σ.mem f = some c := by
  cases fuel with
  | zero => cases hr
  | succ n =>
    unfold fmtLoop at hr
    obtain ⟨c, hc, -⟩ := Option.bind_eq_some_iff.mp hr
    exact ⟨n, c, rfl, hc⟩

/-- Without arguments the string only grows, and it does so with each character. -/
theorem Past.loop_nil (hp : Past m p h0 σ h) (hargs : σ.args = []) (hr : fmtLoop fmt fuel σ f = some (m', r)) :
    ∃ q b, r = some q ∧ m'.heap.get q = some b ∧ σ.i ≤ b.len ∧ (fmt.byte σ.mem f ≠ some 0 → σ.i < b.len) := by
  induction fuel generalizing σ h f with
  | zero => cases hr
  | succ fuel ih =>
    obtain ⟨-, c, -, hc⟩ := fmtLoop_byte hr
    by_cases hc0 : c = 0
    · subst hc0
      obtain ⟨q, b, hq, hb, hi⟩ := hp.last hr hc
      exact ⟨q, b, hq, hb, Nat.le_of_eq hi, fun h => absurd hc h⟩
    · obtain ⟨σ1, h1, d, hargs1, hi1, hp1, -, havail, -, hr⟩ := hp.begin hr hc hc0
      obtain ⟨e, σ2, f', hput, hr⟩ : ∃ e σ2 f', σ1.putc e = some σ2 ∧ fmtLoop fmt fuel σ2 f' = some (m', r) := by
        split_ifs at hr
        · obtain ⟨next, -, hr⟩ := Option.bind_eq_some_iff.mp hr
          obtain ⟨σ2, hdir, hr⟩ := Option.bind_eq_some_iff.mp hr
          exact ⟨next, σ2, _, directive_nil (hargs1.trans hargs) hdir, hr⟩
        · obtain ⟨σ2, hput, hr⟩ := Option.bind_eq_some_iff.mp hr
          exact ⟨d, σ2, _, hput, hr⟩
      obtain ⟨h2, hp2, hi2, hargs2, -⟩ := hp1.putc havail hput
      obtain ⟨q, b, hq, hb, hle, -⟩ := ih hp2 (hargs2.trans (hargs1.trans hargs)) hr
      exact ⟨q, b, hq, hb, by omega, fun _ => by omega⟩

/-- A turn of the loop that returns: its bytes or more are appended, and the string may move away. -/
theorem Past.turn (hp : Past m p h0 σ h) (hg : m.heap.get p = some h0) (ht0 : Terminated h0)
    (hfmt : fmt.IsString m all) (ho : OneTurn m fs args u t fs' args') (hdrop : all.drop f = fs)
    (hargs : σ.args = args) (hr : fmtLoop fmt fuel σ f = some (m', r)) :
    ∃ n σ2 h2 f', fuel = n + 1 ∧ fmtLoop fmt n σ2 f' = some (m', r) ∧ all.drop f' = fs' ∧ Past m p h0 σ2 h2 ∧
      σ2.args = args' ∧ σ.i + t.length ≤ σ2.i ∧ (σ2.s = p → σ.s = p ∧ max t.length 1 ≤ h.sdsavail) ∧
      (σ2.s ≠ p → u.Outside p) := by
  obtain ⟨n, c, rfl, hc⟩ := fmtLoop_byte hr
  cases ho with
  | @arg next fs a args t hn ht =>
    obtain rfl := hp.byte hg ht0 hfmt hdrop hc
    obtain ⟨σ1, h1, d, hargs1, hi1, hp1, hback1, -, hd, hr⟩ := hp.begin hr hc (by decide)
    obtain rfl := hp1.byte hg ht0 hfmt hdrop hd
    rw [if_pos rfl] at hr
    obtain ⟨next', hnext', hr⟩ := Option.bind_eq_some_iff.mp hr
    obtain rfl := hp1.byte hg ht0 hfmt (drop_of_drop hdrop) hnext'
    obtain ⟨σ2, hdir, hr⟩ := Option.bind_eq_some_iff.mp hr
    obtain ⟨h2, hp2, hi2, hargs2, hback2, hout⟩ := hp1.directive hg ht0 (hargs1.trans hargs) ht hdir
    refine ⟨n, σ2, h2, _, rfl, hr, drop_of_drop (drop_of_drop hdrop), hp2, hargs2, by omega, fun hσ => ?_,
      fun hne => outside_turn.mpr (hout hne)⟩
    obtain ⟨hσ1, ht1⟩ := hback2 hσ
    obtain ⟨hσ0, hone, rfl⟩ := hback1 hσ1
    exact ⟨hσ0, Nat.max_le.mpr ⟨ht1, hone⟩⟩
  | @other next fs args hn =>
    obtain rfl := hp.byte hg ht0 hfmt hdrop hc
    obtain ⟨σ1, h1, d, hargs1, hi1, hp1, hback1, havail, hd, hr⟩ := hp.begin hr hc (by decide)
    obtain rfl := hp1.byte hg ht0 hfmt hdrop hd
    rw [if_pos rfl] at hr
    obtain ⟨next', hnext', hr⟩ := Option.bind_eq_some_iff.mp hr
    obtain rfl := hp1.byte hg ht0 hfmt (drop_of_drop hdrop) hnext'
    obtain ⟨σ2, hdir, hr⟩ := Option.bind_eq_some_iff.mp hr
    rw [directive_other hn] at hdir
    obtain ⟨h2, hp2, hi2, hargs2, hs2⟩ := hp1.putc havail hdir
    refine ⟨n, σ2, h2, _, rfl, hr, drop_of_drop (drop_of_drop hdrop), hp2, hargs2.trans (hargs1.trans hargs),
      Nat.le_of_eq (by rw [hi2, hi1]; rfl), fun hσ => ?_, fun _ => outside_none⟩
    obtain ⟨hσ0, hone, -⟩ := hback1 (hs2.symm.trans hσ)
    exact ⟨hσ0, hone⟩
  | @char c fs args hchar =>
    obtain rfl := hp.byte hg ht0 hfmt hdrop hc
    obtain ⟨σ1, h1, d, hargs1, hi1, hp1, hback1, havail, hd, hr⟩ := hp.begin hr hc (ne_zero_of_drop hfmt hdrop)
    obtain rfl := hp1.byte hg ht0 hfmt hdrop hd
    rw [if_neg hchar] at hr
    obtain ⟨σ2, hput, hr⟩ := Option.bind_eq_some_iff.mp hr
    obtain ⟨h2, hp2, hi2, hargs2, hs2⟩ := hp1.putc havail hput
    refine ⟨n, σ2, h2, _, rfl, hr, drop_of_drop hdrop, hp2, hargs2.trans (hargs1.trans hargs),
      Nat.le_of_eq (by rw [hi2, hi1]; rfl), fun hσ => ?_, fun _ => outside_none⟩
    obtain ⟨hσ0, hone, -⟩ := hback1 (hs2.symm.trans hσ)
    exact ⟨hσ0, hone⟩

/-- **In any state** the loop appends as many bytes as the format stands for, or more.  Once the string has moved, it
returns only when nothing in the old block was left to be read. -/
theorem Past.loop (hp : Past m p h0 σ h) (hg : m.heap.get p = some h0) (ht0 : Terminated h0)
    (hfmt : fmt.IsString m all) (hexp : Expands m fs args bs) (hper : endsInPercent fs = false)
    (hdrop : all.drop f = fs) (hargs : σ.args = args) (hr : fmtLoop fmt fuel σ f = some (m', r)) :
    (∃ q b, r = some q ∧ m'.heap.get q = some b ∧ σ.i + bs.length ≤ b.len) ∧
      (σ.s ≠ p → fmt.inside p = false ∧ ∀ v ∈ turns m fs args, v.Outside p) := by
  induction fuel generalizing σ h f fs args bs with
  | zero => cases hr
  | succ fuel ih =>
    by_cases hnil : fs = []
    · subst hnil
      cases hexp
      obtain ⟨-, c, -, hc⟩ := fmtLoop_byte hr
      obtain ⟨q, b, hq, hb, hle, -⟩ := hp.loop_nil hargs hr
      exact ⟨⟨q, b, hq, hb, hle⟩, fun hne => ⟨hp.outside_of_byte hne hc, fun v hv => absurd hv List.not_mem_nil⟩⟩
    · obtain ⟨u, t, fs', args', bs', ho, rfl, hexp', hper', -⟩ := hexp.turn hper hnil
      obtain ⟨n, σ2, h2, f', hn, hr, hdrop', hp2, hargs2, hi2, hback, hout⟩ := hp.turn hg ht0 hfmt ho hdrop hargs hr
      obtain rfl := Nat.succ.inj hn
      obtain ⟨⟨q, b, hq, hb, hle⟩, hrest⟩ := ih hp2 hexp' hper' hdrop' hargs2 hr
      refine ⟨⟨q, b, hq, hb, by rw [List.length_append]; omega⟩, fun hne => ?_⟩
      have hne2 : σ2.s ≠ p := fun h => hne (hback h).1
      obtain ⟨hin, hturns⟩ := hrest hne2
      rw [ho.turns.1]
      exact ⟨hin, List.forall_mem_cons.mpr ⟨hout hne2, hturns⟩⟩

end PastLoop

end BeanRaft.Slice
