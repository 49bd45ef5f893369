import BeanRaft.Slice.Texts

/-!
# BeanRaft.Slice.Printf — appending what `vsnprintf` writes

`sdscatvprintf` of `sds.cpp` prints into a buffer of its own and appends that to the string.  It does not know how long
the text is: it looks at the last byte but one of the buffer, and takes one of twice the size when that is not 0.

* `Space`: the strings, and the plain arrays that the functions of `sds.cpp` allocate beside them.
* `printfLoop`: the loop; `text` is what the format and its arguments stand for, which `vsnprintf` decides.
* `sdscatvprintf_text`: the loop ends, the buffers are gone, and the text is appended up to its first 0; or NULL is
  returned, and everything is as it was.
-/

namespace BeanRaft.Slice

open CInt Lib

/-- The strings, and beside them the `char` buffers and the arrays of strings. -/
structure Space where
  mem : Mem
  bufs : Heap (List Byte)
  vecs : Heap (List (Option Ptr))
  deriving DecidableEq, Repr

/-- Whether the allocator has room for the next request. -/
def Mem.grant (m : Mem) : Mem × Bool :=
  match m.fails with
  | true :: fails => (⟨m.heap, fails⟩, false)
  | fails => (⟨m.heap, fails.tail⟩, true)

/-- `s_malloc(n)` for a `char` buffer -/
def Space.mallocBuf (σ : Space) (n : Nat) : Space × Option Ptr :=
  if σ.mem.grant.2 = true then
    ({ σ with mem := σ.mem.grant.1, bufs := σ.bufs.alloc (List.replicate n none) }, some σ.bufs.next)
  else ({ σ with mem := σ.mem.grant.1 }, none)

/-- The `buf` of `sdscatvprintf`: `staticbuf`, or a buffer that was allocated. -/
inductive CharBuf
  | staticbuf (bytes : List Byte)
  | heap (b : Ptr)

namespace CharBuf

def bytes (σ : Space) : CharBuf → Option (List Byte)
  | staticbuf bytes => some bytes
  | heap b => σ.bufs.get b

/-- The bytes `bs` stored from `off` on. -/
def store (σ : Space) (off : Nat) (bs : List Byte) : CharBuf → Option (Space × CharBuf)
  | staticbuf bytes => (Lib.write bytes off bs).map fun bytes => (σ, staticbuf bytes)
  | heap b => (σ.bufs.modify b fun bytes => Lib.write bytes off bs).map fun bufs => ({ σ with bufs := bufs }, heap b)

/-- `if (buf != staticbuf) s_free(buf);` -/
def free (σ : Space) : CharBuf → Option Space
  | staticbuf _ => some σ
  | heap b => (σ.bufs.free b).map fun bufs => { σ with bufs := bufs }

/-- `vsnprintf` for a format and arguments that stand for `text`: as much of it as the buffer has room for, and a null
term.  Nothing is said of sizes that are no `int`. -/
def vsnprintf (σ : Space) (buf : CharBuf) (buflen : Nat) (text : List UInt8) : Option (Space × CharBuf) :=
  if 0 < buflen ∧ buflen < 2 ^ 31 ∧ text.length < 2 ^ 31 then
    buf.store σ 0 ((text.take (buflen - 1)).map some ++ [some 0])
  else none

end CharBuf

/-- The loop of `sdscatvprintf`, and what follows it.  `buflen` is a `size_t` and doubles, so that there are not more
turns than it has bits. -/
def printfLoop (text : List UInt8) (s : Option Ptr) : Nat → Space → CharBuf → Nat → Option (Space × Option Ptr)
  | 0, _, _, _ => none
  | fuel + 1, σ, buf, buflen =>
    (buf.store σ (buflen - 2) [some 0]).bind fun (σ, buf) =>
      (buf.vsnprintf σ buflen text).bind fun (σ, buf) =>
        (buf.bytes σ).bind fun bytes => (bytes[buflen - 2]?.join).bind fun c =>
          if c ≠ 0 then
            (buf.free σ).bind fun σ =>
              match σ.mallocBuf (buflen * 2 % 2 ^ 64) with
              | (σ, none) => some (σ, none)
              | (σ, some b) => printfLoop text s fuel σ (.heap b) (buflen * 2 % 2 ^ 64)
          else
            s.bind fun s => (sdscat σ.mem s (.ext bytes)).bind fun (m, t) =>
              (buf.free { σ with mem := m }).map (·, t)

/-- `sdscatvprintf` (line 522) -/
def sdscatvprintf (σ : Space) (s : Option Ptr) (fmt : Src) (text : List UInt8) : Option (Space × Option Ptr) :=
  (fmt.strlen σ.mem).bind fun n =>
    if 1024 < n * 2 % 2 ^ 64 then
      match σ.mallocBuf (n * 2 % 2 ^ 64) with
      | (σ, none) => some (σ, none)
      | (σ, some b) => printfLoop text s 64 σ (.heap b) (n * 2 % 2 ^ 64)
    else printfLoop text s 64 σ (.staticbuf (List.replicate 1024 none)) 1024

/-- `Slice::appendPrintf`: the string is made first when `data` is NULL. -/
def appendPrintf (σ : Space) (data : Option Ptr) (fmt : Src) (text : List UInt8) : Option (Space × Option Ptr) :=
  match data with
  | none => (sdsempty σ.mem).bind fun (m, p) => sdscatvprintf { σ with mem := m } p fmt text
  | some p => sdscatvprintf σ (some p) fmt text

/-- The part of a text that a C string holds. -/
def cstr (text : List UInt8) : List UInt8 := text.takeWhile (· ≠ 0)

/-! ## The buffer -/

/-- The buffer holds `bytes`, and the other buffers are those of `g`. -/
def CharBuf.Holds (g : Nat → Option (List Byte)) (σ : Space) (bytes : List Byte) : CharBuf → Prop
  | .staticbuf bytes' => bytes' = bytes ∧ σ.bufs.get = g
  | .heap b => g b = none ∧ σ.bufs.get = Function.update g b (some bytes)

section Buffer

variable {g : Nat → Option (List Byte)} {σ σ' : Space} {buf : CharBuf} {cont cont' bs : List Byte} {off n : Nat}

theorem CharBuf.Holds.bytes (h : buf.Holds g σ cont) : buf.bytes σ = some cont := by
  cases buf with
  | staticbuf b => exact congrArg some h.1
  | heap b =>
    show σ.bufs.get b = _
    rw [h.2, Function.update_self]

theorem CharBuf.Holds.store (h : buf.Holds g σ cont) (hw : Lib.write cont off bs = some cont') :
    ∃ σ' buf', buf.store σ off bs = some (σ', buf') ∧ buf'.Holds g σ' cont' ∧ σ'.mem = σ.mem ∧ σ'.vecs = σ.vecs := by
  cases buf with
  | staticbuf b =>
    obtain ⟨rfl, hg⟩ := h
    exact ⟨σ, .staticbuf cont', by rw [CharBuf.store, hw]; rfl, ⟨rfl, hg⟩, rfl, rfl⟩
  | heap b =>
    obtain ⟨hdead, hget⟩ := h
    have hb : σ.bufs.get b = some cont := by rw [hget, Function.update_self]
    refine ⟨{ σ with bufs := σ.bufs.put b (some cont') }, .heap b, ?_, ⟨hdead, ?_⟩, rfl, rfl⟩
    · rw [CharBuf.store, Heap.modify_of_get hb, hw]
      rfl
    · show (σ.bufs.put b (some cont')).get = _
      rw [Heap.get_put (Heap.lt_next hb), hget, Function.update_idem]

theorem CharBuf.Holds.free (h : buf.Holds g σ cont) :
    ∃ σ', buf.free σ = some σ' ∧ σ'.bufs.get = g ∧ σ'.mem = σ.mem ∧ σ'.vecs = σ.vecs := by
  cases buf with
  | staticbuf b => exact ⟨σ, rfl, h.2, rfl, rfl⟩
  | heap b =>
    obtain ⟨hdead, hget⟩ := h
    have hb : σ.bufs.get b = some cont := by rw [hget, Function.update_self]
    refine ⟨{ σ with bufs := σ.bufs.put b none }, by rw [CharBuf.free, Heap.free_of_get hb]; rfl, ?_, rfl, rfl⟩
    show (σ.bufs.put b none).get = g
    rw [Heap.get_put (Heap.lt_next hb), hget, Function.update_idem, ← hdead, Function.update_eq_self]

/-- The buffer is not one of the strings. -/
theorem CharBuf.Holds.withMem (h : buf.Holds g σ cont) (m : Mem) : buf.Holds g { σ with mem := m } cont := by
  cases buf <;> exact h

theorem grant_cases (m : Mem) : m.grant.1.heap = m.heap ∧ m.grant.1.fails <:+ m.fails ∧
    (m.grant.2 = false → true ∈ m.fails) := by
  unfold Mem.grant
  split
  · next fails hfails => exact ⟨rfl, by rw [hfails]; exact List.suffix_cons .., fun _ => by simp [hfails]⟩
  · exact ⟨rfl, List.tail_suffix _, fun h => by cases h⟩

/-- A request for a buffer is granted, or is one that fails. -/
theorem mallocBuf_cases (hg : σ.bufs.get = g) (n : Nat) :
    ∃ σ', σ'.mem.heap = σ.mem.heap ∧ σ'.mem.fails <:+ σ.mem.fails ∧ σ'.vecs = σ.vecs ∧
      (σ.mallocBuf n = (σ', none) ∧ σ'.bufs.get = g ∧ true ∈ σ.mem.fails ∨
        ∃ b, σ.mallocBuf n = (σ', some b) ∧ (CharBuf.heap b).Holds g σ' (List.replicate n none)) := by
  obtain ⟨hheap, hfails, hfail⟩ := grant_cases σ.mem
  unfold Space.mallocBuf
  split_ifs with hgrant
  · refine ⟨{ σ with mem := σ.mem.grant.1, bufs := σ.bufs.alloc (List.replicate n none) }, hheap, hfails, rfl,
      .inr ⟨_, rfl, hg ▸ Heap.get_next, ?_⟩⟩
    show (σ.bufs.alloc (List.replicate n none)).get = _
    rw [Heap.get_alloc, hg]
  · exact ⟨{ σ with mem := σ.mem.grant.1 }, hheap, hfails, rfl,
      .inl ⟨rfl, hg, hfail (Bool.eq_false_iff.mpr hgrant)⟩⟩

end Buffer

/-! ## What is printed -/

section Printed

variable {text : List UInt8} {cont : List Byte} {n j : Nat}

/-- A C string ends at its first null term, whatever is cut off behind it. -/
theorem cstr_take (hj : text[j]? = some 0) (hlt : j < n) : cstr (text.take n) = cstr text := by
  induction text generalizing j n with
  | nil => cases hj
  | cons c text ih =>
    obtain ⟨n, rfl⟩ := Nat.exists_eq_succ_of_ne_zero (Nat.ne_of_gt (Nat.zero_lt_of_lt hlt))
    rw [List.take_succ_cons]
    unfold cstr
    rw [List.takeWhile_cons, List.takeWhile_cons]
    split_ifs with hc
    · cases j with
      | zero =>
        obtain rfl := Option.some.inj hj
        simp at hc
      | succ j => exact congrArg (c :: ·) (ih hj (Nat.lt_of_succ_lt_succ hlt))
    · rfl

theorem cstr_split (text : List UInt8) (rest : List Byte) : 0 ∉ cstr text ∧
    ∃ rest', text.map some ++ some 0 :: rest = (cstr text).map some ++ some 0 :: rest' := by
  induction text with
  | nil => exact ⟨List.not_mem_nil, rest, rfl⟩
  | cons c text ih =>
    obtain ⟨hnot, rest', hrest⟩ := ih
    unfold cstr
    rw [List.takeWhile_cons]
    split_ifs with hc
    · refine ⟨fun hmem => ?_, rest', congrArg (some c :: ·) hrest⟩
      rcases List.mem_cons.mp hmem with h | h
      · rw [← h] at hc
        simp at hc
      · exact hnot h
    · obtain rfl : c = 0 := by simpa using hc
      exact ⟨List.not_mem_nil, text.map some ++ some 0 :: rest, rfl⟩

/-- A turn of the loop: the buffer holds as much of the text as there is room for, and the last byte but one tells
whether all of it is there, as far as a C string goes. -/
theorem printed (hlen : cont.length = n) (hn : 2 ≤ n) (text : List UInt8) :
    ∃ cont1 cont2 c rest, Lib.write cont (n - 2) [some 0] = some cont1 ∧
      Lib.write cont1 0 ((text.take (n - 1)).map some ++ [some 0]) = some cont2 ∧
      cont2 = (text.take (n - 1)).map some ++ some 0 :: rest ∧ cont2[n - 2]? = some (some c) ∧
      (c = 0 → cstr (text.take (n - 1)) = cstr text) ∧ (c ≠ 0 → n ≤ text.length + 1) := by
  obtain ⟨cont1, h1⟩ : ∃ cont1, Lib.write cont (n - 2) [some 0] = some cont1 :=
    write_isSome (by rw [hlen]; show n - 2 + 1 ≤ n; omega)
  have hlen1 : cont1.length = n := (length_write h1).trans hlen
  have htext : ((text.take (n - 1)).map some ++ [some (0 : UInt8)]).length = min (n - 1) text.length + 1 := by
    rw [List.length_append, List.length_map, List.length_take]
    rfl
  obtain ⟨cont2, h2⟩ : ∃ cont2, Lib.write cont1 0 ((text.take (n - 1)).map some ++ [some 0]) = some cont2 :=
    write_isSome (by rw [htext, hlen1]; omega)
  obtain ⟨-, hcont2⟩ := write_some h2
  rw [List.take_zero, List.nil_append, Nat.zero_add, htext, List.append_assoc] at hcont2
  refine ⟨cont1, cont2, ?_⟩
  by_cases hfit : n ≤ text.length + 1
  · -- the buffer is full of text
    have hlt : n - 2 < text.length := by omega
    refine ⟨text[n - 2], _, h1, h2, hcont2, ?_, fun hc => ?_, fun _ => hfit⟩
    · have hidx : n - 2 < ((text.take (n - 1)).map some).length := by
        rw [List.length_map, List.length_take]
        omega
      rw [hcont2, List.getElem?_append_left hidx, List.getElem?_map, List.getElem?_take_of_lt (by omega),
        List.getElem?_eq_getElem hlt]
      rfl
    · exact cstr_take (List.getElem?_eq_some_iff.mpr ⟨hlt, hc⟩) (by omega)
  · -- the byte is the null term, or the 0 that was stored first
    have hall : text.take (n - 1) = text := List.take_of_length_le (by omega)
    rw [hall] at hcont2 ⊢
    refine ⟨0, _, h1, by rw [hall] at h2; exact h2, hcont2, ?_, fun _ => rfl, fun hc => absurd rfl hc⟩
    have hmin : min (n - 1) text.length = text.length := by omega
    rw [hcont2, hmin, List.getElem?_append_right (by rw [List.length_map]; omega), List.length_map]
    by_cases heq : text.length = n - 2
    · rw [heq, Nat.sub_self]
      rfl
    · obtain ⟨k, hk⟩ : ∃ k, n - 2 - text.length = k + 1 := ⟨n - 2 - text.length - 1, by omega⟩
      obtain ⟨-, hcont1⟩ := write_some h1
      have hfront : (cont.take (n - 2)).length = n - 2 := by
        rw [List.length_take, hlen]
        omega
      rw [hk]
      show (cont1.drop (text.length + 1))[k]? = _
      have hk' : text.length + 1 + k = n - 2 := by omega
      rw [List.getElem?_drop, hk', hcont1, List.append_assoc, List.getElem?_append_right (by rw [hfront]), hfront,
        Nat.sub_self]
      rfl

end Printed

/-! ## The loop -/

/-- As `Grants`, beside buffers that are those of `gb` at the end and arrays of strings that stay. -/
def Space.Grants (gb : Nat → Option (List Byte)) (σ : Space) (r : Option (Space × Option Ptr)) (P : Mem → Ptr → Prop) :
    Prop :=
  ∃ σ', σ'.bufs.get = gb ∧ σ'.vecs = σ.vecs ∧ σ'.mem.fails <:+ σ.mem.fails ∧
    (r = some (σ', none) ∧ σ'.mem.heap = σ.mem.heap ∧ true ∈ σ.mem.fails ∨ ∃ q, r = some (σ', some q) ∧ P σ'.mem q)

section Loop

variable {g : Nat → Option Sdshdr} {gb : Nat → Option (List Byte)} {l : List (Ptr × List UInt8)} {σ σ1 : Space}
  {buf : CharBuf} {cont : List Byte} {cs text : List UInt8} {p n fuel : Nat} {fmt : Src}
  {r : Option (Space × Option Ptr)} {P : Mem → Ptr → Prop}

/-- The steps before changed neither the strings nor the arrays of strings. -/
theorem Space.Grants.after (h : Space.Grants gb σ1 r P) (hheap : σ1.mem.heap = σ.mem.heap)
    (hfails : σ1.mem.fails <:+ σ.mem.fails) (hvecs : σ1.vecs = σ.vecs) : Space.Grants gb σ r P := by
  obtain ⟨σ', hb, hv, hf, ⟨hr, hh, htrue⟩ | hP⟩ := h
  · exact ⟨σ', hb, hv.trans hvecs, hf.trans hfails, .inl ⟨hr, hh.trans hheap, hfails.subset htrue⟩⟩
  · exact ⟨σ', hb, hv.trans hvecs, hf.trans hfails, .inr hP⟩

/-- By induction on the turns that are left: the buffer has the size `n`, and enough turns are left to double it up to
the sizes that no text reaches. -/
theorem printfLoop_text (ho : Texts g ((p, cs) :: l) σ.mem) (hbuf : buf.Holds gb σ cont) (hlen : cont.length = n)
    (hn : 2 ≤ n) (hint : n < 2 ^ 31) (hfuel : 2 ^ 64 ≤ n * 2 ^ fuel) (htext : text.length + 1 < 2 ^ 30)
    (hroomy : Roomy cs.length (cstr text).length) :
    Space.Grants gb σ (printfLoop text (some p) fuel σ buf n) fun m q => Texts g ((q, cs ++ cstr text) :: l) m := by
  induction fuel generalizing σ buf cont n with
  | zero => omega
  | succ fuel ih =>
    obtain ⟨cont1, cont2, c, rest, h1, h2, hcont2, hc, hall, hmore⟩ := printed hlen hn text
    obtain ⟨σ1, buf1, hstore1, hbuf1, hmem1, hvecs1⟩ := hbuf.store h1
    obtain ⟨σ2, buf2, hstore2, hbuf2, hmem2, hvecs2⟩ := hbuf1.store h2
    have hprint : buf1.vsnprintf σ1 n text = some (σ2, buf2) := by
      unfold CharBuf.vsnprintf
      rw [if_pos ⟨by omega, hint, by omega⟩]
      exact hstore2
    have hmem : σ2.mem = σ.mem := hmem2.trans hmem1
    have hvecs : σ2.vecs = σ.vecs := hvecs2.trans hvecs1
    unfold printfLoop
    rw [hstore1, Option.bind_some]
    dsimp only
    rw [hprint, Option.bind_some]
    dsimp only
    rw [hbuf2.bytes, Option.bind_some, hc, Option.join_some, Option.bind_some]
    by_cases hzero : c = 0
    · -- the text is complete
      rw [if_neg (not_not.mpr hzero), Option.bind_some]
      obtain ⟨hnot, rest', hrest⟩ := cstr_split (text.take (n - 1)) rest
      rw [hall hzero] at hnot hrest
      rw [hcont2, hrest, hmem]
      obtain ⟨m', hfails, ⟨hcat, hheap, htrue⟩ | ⟨q, hcat, hP⟩⟩ := sdscat_ext ho hnot rest' hroomy
      · obtain ⟨σ3, hfree, hb3, hm3, hv3⟩ := (hbuf2.withMem m').free
        refine ⟨σ3, hb3, hv3.trans hvecs, hm3 ▸ hfails, .inl ⟨?_, hm3 ▸ hheap, htrue⟩⟩
        rw [hcat, Option.bind_some]
        dsimp only
        rw [hfree]
        rfl
      · obtain ⟨σ3, hfree, hb3, hm3, hv3⟩ := (hbuf2.withMem m').free
        refine ⟨σ3, hb3, hv3.trans hvecs, hm3 ▸ hfails, .inr ⟨q, ?_, hm3 ▸ hP⟩⟩
        rw [hcat, Option.bind_some]
        dsimp only
        rw [hfree]
        rfl
    · -- a buffer of twice the size
      rw [if_pos hzero]
      have hle := hmore hzero
      obtain ⟨σ3, hfree, hb3, hm3, hv3⟩ := hbuf2.free
      have hdouble : n * 2 % 2 ^ 64 = n * 2 := Nat.mod_eq_of_lt (by omega)
      rw [hfree, Option.bind_some, hdouble]
      obtain ⟨σ4, hheap4, hfails4, hvecs4, ⟨hmalloc, hb4, htrue⟩ | ⟨b, hmalloc, hbuf4⟩⟩ := mallocBuf_cases hb3 (n * 2)
      · rw [hmalloc]
        rw [hm3, hmem] at hheap4 hfails4 htrue
        exact ⟨σ4, hb4, hvecs4.trans (hv3.trans hvecs), hfails4, .inl ⟨rfl, hheap4, htrue⟩⟩
      · rw [hmalloc]
        rw [hm3, hmem] at hheap4 hfails4
        have ho4 : Texts g ((p, cs) :: l) σ4.mem := by
          unfold Texts
          rw [hheap4]
          exact ho
        have hpow : n * 2 * 2 ^ fuel = n * 2 ^ (fuel + 1) := by rw [Nat.mul_assoc, ← Nat.pow_succ']
        exact (ih ho4 hbuf4 List.length_replicate (by omega) (by omega) (hpow ▸ hfuel)).after hheap4 hfails4
          (hvecs4.trans (hv3.trans hvecs))

/-- A memory in which `h` is the only block. -/
def oneString (h : Sdshdr) (fails : List Bool) : Space := ⟨⟨Heap.alloc ⟨[]⟩ h, fails⟩, ⟨[]⟩, ⟨[]⟩⟩

theorem texts_oneString {h : Sdshdr} (ht : Text h cs) (fails : List Bool) :
    Texts (⟨[]⟩ : Heap Sdshdr).get [(0, cs)] (oneString h fails).mem :=
  (Owns.nil (R := Text)).alloc rfl ht Heap.get_alloc

/-- The first buffer is on the stack, or as large as two formats. -/
theorem sdscatvprintf_grants {printed : List UInt8} (hprinted : cstr text = printed)
    (ho : Texts g ((p, cs) :: l) σ.mem) (hfmt : fmt.strlen σ.mem = some n) (hn : n < 2 ^ 30)
    (htext : text.length + 1 < 2 ^ 30) (hroomy : Roomy cs.length printed.length) :
    Space.Grants σ.bufs.get σ (sdscatvprintf σ (some p) fmt text) fun m q => Texts g ((q, cs ++ printed) :: l) m := by
  subst hprinted
  unfold sdscatvprintf
  rw [hfmt, Option.bind_some, Nat.mod_eq_of_lt (show n * 2 < 2 ^ 64 by omega)]
  split_ifs with hlarge
  · obtain ⟨σ1, hheap, hfails, hvecs, ⟨hmalloc, hb, htrue⟩ | ⟨b, hmalloc, hbuf⟩⟩ := mallocBuf_cases rfl (n * 2)
    · rw [hmalloc]
      exact ⟨σ1, hb, hvecs, hfails, .inl ⟨rfl, hheap, htrue⟩⟩
    · rw [hmalloc]
      have ho1 : Texts g ((p, cs) :: l) σ1.mem := by
        unfold Texts
        rw [hheap]
        exact ho
      exact (printfLoop_text ho1 hbuf List.length_replicate (by omega) (by omega) (by omega) htext hroomy).after hheap
        hfails hvecs
  · have hbuf : (CharBuf.staticbuf (List.replicate 1024 none)).Holds σ.bufs.get σ (List.replicate 1024 none) :=
      ⟨rfl, rfl⟩
    exact printfLoop_text ho hbuf List.length_replicate (by decide) (by decide) (by decide) htext hroomy

/-- **sdscatvprintf** appends what `vsnprintf` prints, up to its first null term, whatever size the buffers need, and
gives its buffers back; or an allocation fails, and everything is as it was. -/
theorem sdscatvprintf_text (ho : Texts g ((p, cs) :: l) σ.mem) (hfmt : fmt.strlen σ.mem = some n) (hn : n < 2 ^ 30)
    (htext : text.length + 1 < 2 ^ 30) (hroomy : Roomy cs.length (cstr text).length) :
    Space.Grants σ.bufs.get σ (sdscatvprintf σ (some p) fmt text)
      fun m q => Texts g ((q, cs ++ cstr text) :: l) m :=
  sdscatvprintf_grants rfl ho hfmt hn htext hroomy

/-- `"%s"` with an argument `"b"` behind an `"a"`. -/
theorem sdscatvprintf_text_ab : Space.Grants (oneString ⟨.type8, 1, 1, [some 97, some 0]⟩ [true]).bufs.get
    (oneString ⟨.type8, 1, 1, [some 97, some 0]⟩ [true])
    (sdscatvprintf (oneString ⟨.type8, 1, 1, [some 97, some 0]⟩ [true]) (some 0) (.ext [some 37, some 115, some 0]) [98])
    fun m q => Texts (⟨[]⟩ : Heap Sdshdr).get [(q, [97] ++ cstr [98])] m := by
  have htext : Text ⟨.type8, 1, 1, [some 97, some 0]⟩ [97] :=
    ⟨⟨by decide, by decide, by decide, by decide⟩, rfl, rfl⟩
  exact sdscatvprintf_text (n := 2) (texts_oneString htext [true]) rfl (by decide) (by decide) (by decide)

/-- With an allocator that always succeeds, an object that had no string has one with the printed text, beside all that
was in the memory. -/
theorem appendPrintf_text (hf : σ.mem.fails = []) (hfmt : fmt.strlen σ.mem = some n) (hn : n < 2 ^ 30)
    (htext : text.length + 1 < 2 ^ 30) : ∃ σ' q, appendPrintf σ none fmt text = some (σ', some q) ∧
      σ'.bufs.get = σ.bufs.get ∧ Texts σ.mem.heap.get [(q, cstr text)] σ'.mem := by
  obtain ⟨m, q, hempty, hfm, hom⟩ := (sdsempty_text (g := σ.mem.heap.get) .nil).calm hf
  have hlen : (cstr text).length ≤ text.length := (List.takeWhile_prefix _).length_le
  have hroomy : Roomy ([] : List UInt8).length (cstr text).length := by
    unfold Roomy SDS_MAX_PREALLOC
    rw [List.length_nil]
    omega
  have hfmt' : fmt.strlen m = some n := by
    refine Src.strlen_mono (fun x hx => ?_) hfmt
    obtain ⟨b, hb⟩ := Option.isSome_iff_exists.mp hx
    rw [hb, Owns.frame hom hb]
  obtain ⟨σ', hb, -, -, ⟨-, -, htrue⟩ | ⟨q', hr, hP⟩⟩ :=
    sdscatvprintf_grants (σ := { σ with mem := m }) rfl hom hfmt' hn htext hroomy
  · rw [hfm] at htrue
    cases htrue
  · refine ⟨σ', q', ?_, hb, hP⟩
    show (sdsempty σ.mem).bind _ = _
    rw [hempty]
    exact hr

end Loop

end BeanRaft.Slice
