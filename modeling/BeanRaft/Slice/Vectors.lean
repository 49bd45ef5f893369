import BeanRaft.Slice.Repr

/-!
# BeanRaft.Slice.Vectors — arrays of strings

The arrays that `sdssplitlen` and `sdssplitargs` return: `malloc`, `realloc`, stores, reads and `free` of an array of
`sds`, and `sdsfreesplitres`.  An element that holds no string, because NULL was stored or nothing yet, is `none`; a
read of such an element is undefined here, and nothing reads one.

* `VecHolds`: an array and its elements, beside arrays that stay.
* `freeTokens_texts`, `sdsfreesplitres_texts`: the strings of an array are freed, each once, and then the array.
-/

namespace BeanRaft.Slice

open CInt Lib

/-! ## Operations -/

/-- `t + n`; `SDS_NOINIT` is known by its address. -/
def Src.add : Src → Nat → Src
  | null, _ => null
  | noinit, n => if n = 0 then noinit else ext (SDS_NOINIT.drop n)
  | ext bs, n => ext (bs.drop n)
  | sds p off, n => sds p (off + n)

namespace Space

variable (σ : Space)

/-- The elements of an array, and the arrays without it; NULL has no elements. -/
def dropVec : Option Ptr → Option (List (Option Ptr) × Heap (List (Option Ptr)))
  | none => some ([], σ.vecs)
  | some v => (σ.vecs.get v).map fun slots => (slots, σ.vecs.put v none)

/-- `s_realloc(v, n*sizeof(sds))`, and `s_malloc` for a `v` of NULL.  The old array stays when NULL is returned. -/
def reallocVec (v : Option Ptr) (n : Nat) : Option (Space × Option Ptr) :=
  (σ.dropVec v).map fun (slots, vecs) =>
    if σ.mem.grant.2 = true then
      ({ σ with
          mem := σ.mem.grant.1
          vecs := vecs.alloc (slots.take n ++ List.replicate (n - slots.length) none) }, some vecs.next)
    else ({ σ with mem := σ.mem.grant.1 }, none)

/-- `v[i] = s` -/
def storeVec (v : Ptr) (i : Nat) (s : Option Ptr) : Option Space :=
  (σ.vecs.modify v fun slots => if i < slots.length then some (slots.set i s) else none).map fun vecs =>
    { σ with vecs := vecs }

/-- `v[i]` -/
def readVec (v : Ptr) (i : Nat) : Option Ptr := (σ.vecs.get v).bind fun slots => slots[i]?.join

/-- `s_free(v)`; nothing is done for NULL. -/
def freeVec : Option Ptr → Option Space
  | none => some σ
  | some v => (σ.vecs.free v).map fun vecs => { σ with vecs := vecs }

def sdsfree (s : Option Ptr) : Option Space := (σ.mem.sdsfree s).map fun m => { σ with mem := m }

end Space

/-- `while(count--) sdsfree(v[count]);` -/
def freeTokens (v : Option Ptr) : Nat → Space → Option Space
  | 0, σ => some σ
  | count + 1, σ => v.bind fun v => (σ.readVec v count).bind fun s => (σ.sdsfree (some s)).bind (freeTokens (some v) count)

/-- `sdsfreesplitres` (line 954) -/
def sdsfreesplitres (σ : Space) (tokens : Option Ptr) (count : Nat) : Option Space :=
  if tokens = none then some σ else (freeTokens tokens count σ).bind fun σ => σ.freeVec tokens

/-! ## Sources that stay -/

/-- The bytes at the pointer begin with `fs`, whatever strings are beside the frame, and it is into none of these. -/
structure Fixed (g : Nat → Option Sdshdr) (t : Src) (fs : List UInt8) : Prop where
  bytes : ∃ rest, ∀ l m, Texts g l m → t.bytes m = some (fs.map some ++ rest)
  outside : ∀ l m p cs, Texts g ((p, cs) :: l) m → t.inside p = false

section Fixed

variable {g : Nat → Option Sdshdr} {l : List (Ptr × List UInt8)} {m : Mem} {t : Src} {fs cs : List UInt8} {q p n : Nat}
  {h : Sdshdr}

theorem Fixed.ext (fs : List UInt8) (rest : List Byte) : Fixed g (.ext (fs.map some ++ rest)) fs :=
  ⟨⟨rest, fun _ _ _ => rfl⟩, fun _ _ _ _ _ => rfl⟩

/-- The text of a string of the frame, with its null term. -/
theorem Fixed.sds (hq : g q = some h) (ht : Text h fs) : Fixed g (.sds q 0) (fs ++ [0]) := by
  refine ⟨⟨h.buf.drop (fs.length + 1), fun l m ho => ?_⟩, fun l m p cs ho => decide_eq_false fun hqp => ?_⟩
  · show (m.heap.get q).bind _ = _
    rw [Owns.frame ho hq, List.map_append]
    have hsplit := List.take_append_drop (fs.length + 1) h.buf
    rw [ht.text] at hsplit
    simp only [Option.bind_some, Nat.zero_le, if_true, List.drop_zero]
    exact congrArg some hsplit.symm
  · have hfresh := Owns.fresh_of_mem ho List.mem_cons_self
    rw [← hqp, hq] at hfresh
    cases hfresh

/-- A place in a string is in that string. -/
theorem Src.inside_add (t : Src) (p q : Nat) : (t.add p).inside q = t.inside q := by
  cases t with
  | null => rfl
  | noinit =>
    show (if p = 0 then Src.noinit else _).inside q = _
    split_ifs <;> rfl
  | ext bs => rfl
  | sds x off => rfl

/-- The bytes from a place on. -/
theorem Src.bytes_add {bs : List Byte} (hb : t.bytes m = some bs) (hp : p ≤ bs.length) :
    (t.add p).bytes m = some (bs.drop p) := by
  cases t with
  | null => cases hb
  | noinit =>
    obtain rfl := Option.some.inj hb
    show (if p = 0 then Src.noinit else _).bytes m = _
    split_ifs with hzero
    · rw [hzero]
      rfl
    · rfl
  | ext arr =>
    obtain rfl := Option.some.inj hb
    rfl
  | sds x off =>
    obtain ⟨h, hx, hbs⟩ := Option.bind_eq_some_iff.mp (show (m.heap.get x).bind _ = _ from hb)
    split_ifs at hbs with hoff
    obtain rfl := Option.some.inj hbs
    rw [List.length_drop] at hp
    show (m.heap.get x).bind _ = _
    rw [hx, Option.bind_some, if_pos (by omega), List.drop_drop]

theorem Fixed.drop (ht : Fixed g t fs) (hp : p ≤ fs.length) : Fixed g (t.add p) (fs.drop p) := by
  obtain ⟨⟨rest, hbytes⟩, hout⟩ := ht
  refine ⟨⟨rest, fun l m ho => ?_⟩, fun l m q cs ho => by rw [Src.inside_add]; exact hout l m q cs ho⟩
  rw [Src.bytes_add (hbytes l m ho) (by rw [List.length_append, List.length_map]; omega),
    List.drop_append_of_le_length (by rw [List.length_map]; exact hp), List.map_drop]

theorem Fixed.take (ht : Fixed g t fs) (n : Nat) : Fixed g t (fs.take n) := by
  obtain ⟨⟨rest, hbytes⟩, hout⟩ := ht
  refine ⟨⟨(fs.drop n).map some ++ rest, fun l m ho => ?_⟩, hout⟩
  rw [hbytes l m ho, ← List.append_assoc, ← List.map_append, List.take_append_drop]

theorem Fixed.read (ht : Fixed g t fs) (ho : Texts g l m) : t.read m fs.length = some (fs.map some) := by
  obtain ⟨rest, hbytes⟩ := ht.bytes
  unfold Src.read
  split_ifs with hzero
  · rw [List.length_eq_zero_iff.mp hzero]
    rfl
  · rw [hbytes l m ho, Option.bind_some, Lib.read, if_pos (by rw [List.length_append, List.length_map]; omega),
      List.drop_zero, List.take_left' (List.length_map some)]

theorem Fixed.readable (ht : Fixed g t fs) : Readable g l t fs :=
  fun p cs m ho => ⟨ht.outside l m p cs ho, ht.read ho⟩

theorem Fixed.byte (ht : Fixed g t fs) (ho : Texts g l m) (hp : p < fs.length) : t.byte m p = some fs[p] :=
  byte_of_read (ht.read ho) hp

end Fixed

/-! ## What the operations do -/

/-- The array `v` with its elements, beside the arrays of `gv`; NULL is an array without elements. -/
def VecHolds (gv : Nat → Option (List (Option Ptr))) (σ : Space) (slots : List (Option Ptr)) : Option Ptr → Prop
  | none => slots = [] ∧ σ.vecs.get = gv
  | some v => Owns Eq gv [(v, slots)] σ.vecs.get

/-- The elements that a list of strings with their texts is stored in. -/
def tokenSlots (ts : List (Ptr × List UInt8)) : List (Option Ptr) := ts.map fun t => some t.1

section Vec

variable {gv : Nat → Option (List (Option Ptr))} {g : Nat → Option Sdshdr} {σ : Space} {slots rest : List (Option Ptr)}
  {v : Option Ptr} {w i n : Nat} {s : Option Ptr} {ts l : List (Ptr × List UInt8)}

theorem VecHolds.get (h : VecHolds gv σ slots (some w)) : σ.vecs.get w = some slots := by
  obtain ⟨b, hb, rfl, -⟩ := Owns.head h
  exact hb

theorem VecHolds.congr {σ' : Space} (h : VecHolds gv σ slots v) (hvecs : σ'.vecs = σ.vecs) : VecHolds gv σ' slots v := by
  unfold VecHolds
  rw [hvecs]
  exact h

theorem VecHolds.withMem (h : VecHolds gv σ slots v) (m : Mem) : VecHolds gv { σ with mem := m } slots v := h.congr rfl

/-- The array grows to `n` elements, or NULL is returned for a failed allocation. -/
theorem reallocVec_cases (h : VecHolds gv σ slots v) (hn : slots.length ≤ n) :
    ∃ σ', σ'.mem.heap = σ.mem.heap ∧ σ'.mem.fails <:+ σ.mem.fails ∧ σ'.bufs = σ.bufs ∧
      (σ.reallocVec v n = some (σ', none) ∧ VecHolds gv σ' slots v ∧ true ∈ σ.mem.fails ∨
        ∃ w, σ.reallocVec v n = some (σ', some w) ∧
          VecHolds gv σ' (slots ++ List.replicate (n - slots.length) none) (some w)) := by
  obtain ⟨hheap, hfails, hfail⟩ := grant_cases σ.mem
  have hfalse : ¬ σ.mem.grant.2 = true → true ∈ σ.mem.fails := fun hg => hfail (Bool.eq_false_iff.mpr hg)
  have htake : slots.take n = slots := List.take_of_length_le hn
  cases v with
  | none =>
    obtain ⟨rfl, hget⟩ := h
    by_cases hg : σ.mem.grant.2 = true
    · refine ⟨{ σ with
        mem := σ.mem.grant.1
        vecs := σ.vecs.alloc (List.replicate n none) }, hheap, hfails, rfl, .inr ⟨σ.vecs.next, ?_, ?_⟩⟩
      · simp [Space.reallocVec, Space.dropVec, hg]
      · refine (Owns.nil (g := gv)).alloc ?_ rfl ?_
        · rw [← hget]
          exact Heap.get_next
        · show (σ.vecs.alloc _).get = _
          rw [Heap.get_alloc, hget, List.nil_append, List.length_nil, Nat.sub_zero]
    · refine ⟨{ σ with mem := σ.mem.grant.1 }, hheap, hfails, rfl, .inl ⟨?_, ⟨rfl, hget⟩, hfalse hg⟩⟩
      simp [Space.reallocVec, Space.dropVec, hg]
  | some v =>
    have hv := h.get
    by_cases hg : σ.mem.grant.2 = true
    · refine ⟨{ σ with
        mem := σ.mem.grant.1
        vecs := (σ.vecs.put v none).alloc (slots ++ List.replicate (n - slots.length) none) }, hheap, hfails, rfl,
        .inr ⟨(σ.vecs.put v none).next, ?_, ?_⟩⟩
      · simp [Space.reallocVec, Space.dropVec, hg, hv, htake]
      · refine Owns.moved h ⟨.inr ?_, ?_⟩ rfl
        · rw [Heap.next_put]
          exact Heap.get_next
        · show ((σ.vecs.put v none).alloc _).get = _
          rw [Heap.get_alloc, Heap.get_put (Heap.lt_next hv)]
    · refine ⟨{ σ with mem := σ.mem.grant.1 }, hheap, hfails, rfl, .inl ⟨?_, h, hfalse hg⟩⟩
      simp [Space.reallocVec, Space.dropVec, hg, hv]

/-- A store inside the array. -/
theorem storeVec_some (h : VecHolds gv σ slots (some w)) (hi : i < slots.length) (s : Option Ptr) :
    ∃ σ', σ.storeVec w i s = some σ' ∧ VecHolds gv σ' (slots.set i s) (some w) ∧ σ'.mem = σ.mem ∧ σ'.bufs = σ.bufs := by
  have hw := h.get
  refine ⟨{ σ with vecs := σ.vecs.put w (some (slots.set i s)) }, ?_, ?_, rfl, rfl⟩
  · unfold Space.storeVec
    rw [Heap.modify_of_get hw, if_pos hi]
    rfl
  · exact Owns.moved h (.stay (Heap.get_put (Heap.lt_next hw))) rfl

theorem freeVec_some (h : VecHolds gv σ slots v) :
    ∃ σ', σ.freeVec v = some σ' ∧ σ'.vecs.get = gv ∧ σ'.mem = σ.mem ∧ σ'.bufs = σ.bufs := by
  cases v with
  | none => exact ⟨σ, rfl, h.2, rfl, rfl⟩
  | some v =>
    have hv := h.get
    refine ⟨{ σ with vecs := σ.vecs.put v none }, ?_, ?_, rfl, rfl⟩
    · show (σ.vecs.free v).map _ = _
      rw [Heap.free_of_get hv]
      rfl
    · exact (Owns.free h (Heap.get_put (Heap.lt_next hv))).nil_eq

theorem Space.sdsfree_texts {p : Ptr} {cs : List UInt8} (ho : Texts g ((p, cs) :: l) σ.mem) :
    ∃ m, σ.sdsfree (some p) = some { σ with mem := m } ∧ m.fails = σ.mem.fails ∧ Texts g l m := by
  obtain ⟨m, hfree, hf, ho'⟩ := sdsfree_text ho
  refine ⟨m, ?_, hf, ho'⟩
  unfold Space.sdsfree
  rw [hfree]
  rfl

theorem readVec_some (h : VecHolds gv σ (tokenSlots ts ++ rest) (some w)) (hi : i < ts.length) :
    σ.readVec w i = some ts[i].1 := by
  have hlt : i < (tokenSlots ts).length := by
    rw [tokenSlots, List.length_map]
    exact hi
  unfold Space.readVec
  rw [h.get, Option.bind_some, List.getElem?_append_left hlt, List.getElem?_eq_getElem hlt]
  simp [tokenSlots]

/-- The strings of the first elements are freed, from the last one on. -/
theorem freeTokens_texts (ho : Texts g (ts ++ l) σ.mem) (hv : VecHolds gv σ (tokenSlots ts ++ rest) v) :
    ∃ m, freeTokens v ts.length σ = some { σ with mem := m } ∧ m.fails = σ.mem.fails ∧ Texts g l m := by
  induction ts using List.reverseRecOn generalizing σ rest with
  | nil => exact ⟨σ.mem, rfl, rfl, ho⟩
  | append_singleton ts t ih =>
    obtain ⟨w, rfl⟩ : ∃ w, v = some w := by
      cases v with
      | none =>
        have hnil := congrArg List.length hv.1
        simp [tokenSlots] at hnil
      | some w => exact ⟨w, rfl⟩
    have hread : σ.readVec w ts.length = some t.1 := by
      rw [readVec_some hv (by simp)]
      simp
    have hfront : Texts g ((t.1, t.2) :: (ts ++ l)) σ.mem := by
      refine Owns.perm ho ?_
      rw [List.append_assoc]
      exact List.perm_middle
    obtain ⟨m, hfree, hf, hrest⟩ := Space.sdsfree_texts hfront
    have hslots : tokenSlots (ts ++ [t]) ++ rest = tokenSlots ts ++ (some t.1 :: rest) := by simp [tokenSlots]
    rw [hslots] at hv
    obtain ⟨m', hloop, hf', ho'⟩ := ih (σ := { σ with mem := m }) hrest (hv.withMem m)
    refine ⟨m', ?_, hf'.trans hf, ho'⟩
    rw [List.length_append, List.length_singleton]
    show (σ.readVec w ts.length).bind _ = _
    rw [hread, Option.bind_some, hfree]
    exact hloop

/-- **sdsfreesplitres** frees an array of strings, and nothing is left of them. -/
theorem sdsfreesplitres_texts (ho : Texts g (ts ++ l) σ.mem) (hv : VecHolds gv σ (tokenSlots ts ++ rest) (some w)) :
    ∃ σ', sdsfreesplitres σ (some w) ts.length = some σ' ∧ Texts g l σ'.mem ∧ σ'.vecs.get = gv ∧ σ'.bufs = σ.bufs := by
  obtain ⟨m, hfree, -, ho'⟩ := freeTokens_texts ho hv
  obtain ⟨σ', hvec, hget, hm, hb⟩ := freeVec_some (hv.withMem m)
  refine ⟨σ', ?_, hm ▸ ho', hget, hb⟩
  unfold sdsfreesplitres
  rw [if_neg (by simp), hfree, Option.bind_some]
  exact hvec

end Vec

end BeanRaft.Slice
