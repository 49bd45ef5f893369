import BeanRaft.Slice.Expand

/-!
# BeanRaft.Slice.Allocator — allocations that fail

A string function under an allocator that returns NULL now and then: either the NULL comes back to the caller and the
heap is as it was (`Refused`), or the call does what it does under an allocator that always succeeds (`Mem.calm`).
-/

namespace BeanRaft.Slice

open CInt Lib

/-- The same heap, and no allocation fails any more. -/
def Mem.calm (m : Mem) : Mem := ⟨m.heap, []⟩

/-- NULL is returned, and the heap is as it was; or the result is that of the calm memory. -/
def Refused (m : Mem) (r calm : Option (Mem × Option Ptr)) : Prop :=
  ∀ m' o, r = some (m', o) → (o = none ∧ m'.heap = m.heap) ∨ ∃ q, o = some q ∧ calm = some (m'.calm, some q)

section Calm

variable {m m' m1 : Mem} {p q n : Nat} {t : Src} {type : SdsType} {o : Option Ptr}

theorem bytes_calm : t.bytes m.calm = t.bytes m := by cases t <;> rfl

theorem read_calm : t.read m.calm n = t.read m n := by
  unfold Src.read
  rw [bytes_calm]

theorem strlen_calm : t.strlen m.calm = t.strlen m := by
  unfold Src.strlen
  rw [bytes_calm]

theorem sdslen_calm : t.sdslen m.calm = t.sdslen m := by
  unfold Src.sdslen
  split <;> rfl

theorem modify_calm (f : Sdshdr → Option Sdshdr) : m.calm.modify p f = (m.modify p f).map Mem.calm := by
  unfold Mem.modify
  rw [Option.map_map]
  rfl

theorem sdsfree_calm : m.calm.sdsfree o = (m.sdsfree o).map Mem.calm := by
  cases o with
  | none => rfl
  | some p =>
    unfold Mem.sdsfree
    rw [Option.map_map]
    rfl

theorem memcpy_calm (off : Nat) : m.calm.memcpy p off t n = (m.memcpy p off t n).map Mem.calm := by
  unfold Mem.memcpy
  rw [read_calm]
  split_ifs
  · rfl
  · cases t.read m n with
    | none => rfl
    | some bs => exact modify_calm _

/-- An allocation that returns a block. -/
theorem malloc_refused : Refused m (m.malloc type n) (m.calm.malloc type n) := by
  intro m' o h
  have hcalm : m.calm.malloc type n =
      (Sdshdr.resize ⟨type, 0, 0, []⟩ n).map fun b => (⟨m.heap.alloc b, []⟩, some m.heap.next) := rfl
  unfold Mem.malloc at h
  split at h
  · cases h
    exact .inl ⟨rfl, rfl⟩
  · obtain ⟨b, hb, he⟩ := Option.map_eq_some_iff.mp h
    cases he
    exact .inr ⟨_, rfl, by rw [hcalm, hb]; rfl⟩

theorem realloc_refused : Refused m (m.realloc p n) (m.calm.realloc p n) := by
  intro m' o h
  have hcalm : m.calm.realloc p n = (m.heap.get p).bind fun h => (h.resize n).map fun b =>
      (⟨(m.heap.put p none).alloc b, []⟩, some m.heap.next) := rfl
  unfold Mem.realloc at h
  split at h
  · cases h
    exact .inl ⟨rfl, rfl⟩
  · obtain ⟨b, hb, h⟩ := Option.bind_eq_some_iff.mp h
    obtain ⟨b', hb', he⟩ := Option.map_eq_some_iff.mp h
    cases he
    exact .inr ⟨_, rfl, by rw [hcalm, hb, Option.bind_some, hb']; rfl⟩

/-- What is done with a block that was returned is the same. -/
theorem ifNotNull_refused {c c' : Option (Mem × Option Ptr)} {k k' : Mem → Ptr → Option (Mem × Option Ptr)}
    (hc : Refused m c c')
    (hk : ∀ m1 q m' o, k m1 q = some (m', o) → ∃ q', o = some q' ∧ k' m1.calm q = some (m'.calm, some q')) :
    Refused m (ifNotNull c k) (ifNotNull c' k') := by
  intro m' o h
  obtain ⟨m1, o1, h1, ho⟩ := ifNotNull_inv h
  rcases hc m1 o1 h1 with ⟨rfl, hheap⟩ | ⟨q, rfl, hcalm⟩
  · rcases ho with ⟨-, he⟩ | ⟨q, hq, -⟩
    · cases he
      exact .inl ⟨rfl, hheap⟩
    · cases hq
  · rcases ho with ⟨hq, -⟩ | ⟨q', hq, hk1⟩
    · cases hq
    · cases hq
      obtain ⟨q', rfl, hk2⟩ := hk m1 q m' o hk1
      refine .inr ⟨q', rfl, ?_⟩
      rw [hcalm]
      exact hk2

theorem sdsnewlen_refused : Refused m (sdsnewlen m t n) (sdsnewlen m.calm t n) := by
  unfold sdsnewlen
  dsimp only
  intro m' o h
  by_cases hnull : m.fails.head? = some true ∧ t = .null
  · rw [if_pos hnull] at h
    cases h
  rw [if_neg hnull] at h
  have hcalm : ¬ (m.calm.fails.head? = some true ∧ t = .null) := fun h => by cases h.1
  rw [if_neg hcalm]
  refine ifNotNull_refused malloc_refused ?_ m' o h
  intro m1 q m' o hk
  obtain ⟨m2, h2, hk⟩ := Option.bind_eq_some_iff.mp hk
  obtain ⟨m3, h3, hk⟩ := Option.bind_eq_some_iff.mp hk
  obtain ⟨m4, h4, he⟩ := Option.map_eq_some_iff.mp hk
  cases he
  refine ⟨q, rfl, ?_⟩
  rw [modify_calm, h2, Option.map_some, Option.bind_some]
  have h3' : (if n ≠ 0 ∧ t ≠ .null ∧ t ≠ .noinit then m2.calm.memcpy q 0 t n else some m2.calm) = some m3.calm := by
    split_ifs at h3 ⊢
    · rw [memcpy_calm, h3]
      rfl
    · rw [Option.some.inj h3]
  rw [h3', Option.bind_some, modify_calm, h4]
  rfl

theorem makeRoom_refused : Refused m (sdsMakeRoomFor m p n) (sdsMakeRoomFor m.calm p n) := by
  intro m' o h
  unfold sdsMakeRoomFor sdsMakeRoomWith at h ⊢
  obtain ⟨b, hb, h⟩ := Option.bind_eq_some_iff.mp h
  have hb' : m.calm.heap.get p = some b := hb
  rw [hb', Option.bind_some]
  dsimp only at h ⊢
  split_ifs at h ⊢ with havail htype
  · cases h
    exact .inr ⟨p, rfl, rfl⟩
  · refine ifNotNull_refused realloc_refused ?_ m' o h
    intro m1 q m' o hk
    obtain ⟨m2, h2, he⟩ := Option.map_eq_some_iff.mp hk
    cases he
    exact ⟨q, rfl, by rw [modify_calm, h2]; rfl⟩
  · refine ifNotNull_refused malloc_refused ?_ m' o h
    intro m1 q m' o hk
    obtain ⟨m2, h2, hk⟩ := Option.bind_eq_some_iff.mp hk
    obtain ⟨m3, h3, hk⟩ := Option.bind_eq_some_iff.mp hk
    obtain ⟨m4, h4, he⟩ := Option.map_eq_some_iff.mp hk
    cases he
    refine ⟨q, rfl, ?_⟩
    rw [memcpy_calm, h2, Option.map_some, Option.bind_some, sdsfree_calm, h3, Option.map_some, Option.bind_some,
      modify_calm, h4]
    rfl

theorem sdscatlen_refused : Refused m (sdscatlen m p t n) (sdscatlen m.calm p t n) := by
  intro m' o h
  unfold sdscatlen at h ⊢
  obtain ⟨b, hb, h⟩ := Option.bind_eq_some_iff.mp h
  have hb' : m.calm.heap.get p = some b := hb
  rw [hb', Option.bind_some]
  refine ifNotNull_refused makeRoom_refused ?_ m' o h
  intro m1 q m' o hk
  obtain ⟨m2, h2, hk⟩ := Option.bind_eq_some_iff.mp hk
  obtain ⟨m3, h3, he⟩ := Option.map_eq_some_iff.mp hk
  cases he
  refine ⟨q, rfl, ?_⟩
  rw [memcpy_calm, h2, Option.map_some, Option.bind_some, modify_calm, h3]
  rfl

end Calm

/-! ## The loop over a format -/

section Format

variable {σ σ' : FmtState} {m m' : Mem} {s s' : Ptr} {t fmt : Src} {c next : UInt8} {f l fuel : Nat} {o : Option Ptr}

def FmtState.calm (σ : FmtState) : FmtState := { σ with mem := σ.mem.calm }

theorem byte_calm : t.byte m.calm f = t.byte m f := by
  unfold Src.byte
  rw [bytes_calm]

theorem room_calm (h : room m s l = some (m', s')) : room m.calm s l = some (m'.calm, s') := by
  obtain ⟨⟨m1, o⟩, h1, ho⟩ := Option.bind_eq_some_iff.mp h
  rcases makeRoom_refused m1 o h1 with ⟨rfl, -⟩ | ⟨q, rfl, hcalm⟩
  · cases ho
  · cases ho
    unfold room
    rw [hcalm]
    rfl

theorem ensure_calm {k : Prop} [Decidable k]
    (hr : (if k then room m s l else some (m, s)) = some (m', s')) :
    (if k then room m.calm s l else some (m.calm, s)) = some (m'.calm, s') := by
  split_ifs at hr ⊢
  · exact room_calm hr
  · cases hr
    rfl

theorem put_calm (h : σ.put t l = some σ') : σ.calm.put t l = some σ'.calm := by
  unfold FmtState.put at h ⊢
  obtain ⟨b, hb, h⟩ := Option.bind_eq_some_iff.mp h
  obtain ⟨⟨m1, s1⟩, h1, h⟩ := Option.bind_eq_some_iff.mp h
  obtain ⟨m2, h2, h⟩ := Option.bind_eq_some_iff.mp h
  obtain ⟨m3, h3, he⟩ := Option.map_eq_some_iff.mp h
  cases he
  have hb' : σ.calm.mem.heap.get σ.calm.s = some b := hb
  have h1' : (if b.sdsavail < l then room σ.calm.mem σ.calm.s l else some (σ.calm.mem, σ.calm.s)) =
      some (m1.calm, s1) := ensure_calm h1
  rw [hb', Option.bind_some, h1', Option.bind_some]
  dsimp only at h2 ⊢
  have h2' : m1.calm.memcpy s1 σ.calm.i t l = some m2.calm := by
    rw [memcpy_calm]
    exact congrArg (Option.map Mem.calm) h2
  rw [h2', Option.bind_some, modify_calm, h3]
  rfl

theorem putc_calm (h : σ.putc c = some σ') : σ.calm.putc c = some σ'.calm := by
  unfold FmtState.putc at h ⊢
  obtain ⟨m1, h1, he⟩ := Option.map_eq_some_iff.mp h
  cases he
  have h1' : (σ.calm.mem.modify σ.calm.s fun h => (h.write σ.calm.i [some c]).map (·.sdsinclen 1)) = some m1.calm := by
    show (σ.mem.calm.modify σ.s fun h => (h.write σ.i [some c]).map (·.sdsinclen 1)) = some m1.calm
    rw [modify_calm, h1]
    rfl
  rw [h1']
  rfl

/-- What a directive copies to the string: the bytes of a string argument, or the text of a number. -/
def FmtState.source (σ : FmtState) (next : UInt8) : Option (Src × Nat) :=
  let buf := List.replicate SDS_LLSTR_SIZE none
  match σ.args with
  | .str t :: _ =>
    if next = 115 then (t.strlen σ.mem).map (t, ·) else if next = 83 then (t.sdslen σ.mem).map (t, ·) else none
  | .int v :: _ => if next = 105 then (sdsll2str buf v.toInt64).map fun (buf, l) => (.ext buf, l) else none
  | .longlong v :: _ => if next = 73 then (sdsll2str buf v).map fun (buf, l) => (.ext buf, l) else none
  | .uint v :: _ => if next = 117 then (sdsull2str buf v.toUInt64).map fun (buf, l) => (.ext buf, l) else none
  | .ulonglong v :: _ => if next = 85 then (sdsull2str buf v).map fun (buf, l) => (.ext buf, l) else none
  | [] => none

theorem directive_arg (hn : next ∈ directives) : σ.directive next =
    (σ.source next).bind fun (t, l) => { σ with args := σ.args.tail }.put t l := by
  have hnumber : ∀ {σ : FmtState} (r : Option (List Byte × Nat)),
      σ.putNumber r = (r.map fun (buf, l) => (Src.ext buf, l)).bind fun (t, l) => σ.put t l := by
    intro σ r
    cases r <;> rfl
  simp only [directives, List.mem_cons, List.not_mem_nil, or_false] at hn
  obtain ⟨m, s, i, args⟩ := σ
  rcases args with _ | ⟨a, args⟩
  · rcases hn with rfl | rfl | rfl | rfl | rfl | rfl <;> rfl
  · cases a with
    | str t =>
      have hlen : ∀ r : Option Nat, (r.bind fun l => FmtState.put ⟨m, s, i, args⟩ t l) =
          (r.map (t, ·)).bind fun (t, l) => FmtState.put ⟨m, s, i, args⟩ t l := by
        intro r
        cases r <;> rfl
      rcases hn with rfl | rfl | rfl | rfl | rfl | rfl
      · exact hlen _
      · exact hlen _
      · rfl
      · rfl
      · rfl
      · rfl
    | int v => rcases hn with rfl | rfl | rfl | rfl | rfl | rfl <;> first | exact hnumber _ | rfl
    | uint v => rcases hn with rfl | rfl | rfl | rfl | rfl | rfl <;> first | exact hnumber _ | rfl
    | longlong v => rcases hn with rfl | rfl | rfl | rfl | rfl | rfl <;> first | exact hnumber _ | rfl
    | ulonglong v => rcases hn with rfl | rfl | rfl | rfl | rfl | rfl <;> first | exact hnumber _ | rfl

theorem source_calm : σ.calm.source next = σ.source next := by
  unfold FmtState.source
  have hargs : σ.calm.args = σ.args := rfl
  have hmem : σ.calm.mem = σ.mem.calm := rfl
  simp only [hargs, hmem, strlen_calm, sdslen_calm]

theorem directive_calm (h : σ.directive next = some σ') : σ.calm.directive next = some σ'.calm := by
  by_cases hn : next ∈ directives
  · rw [directive_arg hn] at h ⊢
    obtain ⟨⟨t, l⟩, hsrc, hput⟩ := Option.bind_eq_some_iff.mp h
    rw [source_calm, hsrc, Option.bind_some]
    exact put_calm (σ := { σ with args := σ.args.tail }) hput
  · rw [directive_other hn] at h ⊢
    exact putc_calm h

/-- The loop returns no NULL. -/
theorem fmtLoop_calm (h : fmtLoop fmt fuel σ f = some (m', o)) :
    ∃ q, o = some q ∧ fmtLoop fmt fuel σ.calm f = some (m'.calm, some q) := by
  induction fuel generalizing σ f with
  | zero => cases h
  | succ fuel ih =>
    unfold fmtLoop at h ⊢
    have hbyte : ∀ {m : Mem} {f : Nat}, fmt.byte m.calm f = fmt.byte m f := byte_calm
    have hmem : σ.calm.mem = σ.mem.calm := rfl
    obtain ⟨c, hc, h⟩ := Option.bind_eq_some_iff.mp h
    rw [hmem, hbyte, hc, Option.bind_some]
    split_ifs at h ⊢ with hc0
    · obtain ⟨m1, h1, he⟩ := Option.map_eq_some_iff.mp h
      cases he
      have h1' : (σ.mem.calm.modify σ.calm.s fun h => h.write σ.calm.i [some 0]) = some m'.calm := by
        show (σ.mem.calm.modify σ.s fun h => h.write σ.i [some 0]) = some m'.calm
        rw [modify_calm, h1]
        rfl
      exact ⟨σ.s, rfl, by rw [h1']; rfl⟩
    · obtain ⟨b, hb, h⟩ := Option.bind_eq_some_iff.mp h
      obtain ⟨⟨m1, s1⟩, h1, h⟩ := Option.bind_eq_some_iff.mp h
      have hb' : σ.mem.calm.heap.get σ.calm.s = some b := hb
      have h1' : (if b.sdsavail = 0 then room σ.mem.calm σ.calm.s 1 else some (σ.mem.calm, σ.calm.s)) =
          some (m1.calm, s1) := ensure_calm h1
      rw [hb', Option.bind_some, h1', Option.bind_some]
      dsimp only at h ⊢
      obtain ⟨c', hc', h⟩ := Option.bind_eq_some_iff.mp h
      rw [hbyte, hc', Option.bind_some]
      split_ifs at h ⊢
      · obtain ⟨next, hnext, h⟩ := Option.bind_eq_some_iff.mp h
        obtain ⟨σ1, hdir, h⟩ := Option.bind_eq_some_iff.mp h
        have hdir' := directive_calm hdir
        rw [hbyte, hnext, Option.bind_some]
        obtain ⟨q, hq, hloop⟩ := ih h
        refine ⟨q, hq, ?_⟩
        show (FmtState.directive ⟨m1.calm, s1, σ.i, σ.args⟩ next).bind _ = _
        rw [show FmtState.directive ⟨m1.calm, s1, σ.i, σ.args⟩ next = some σ1.calm from hdir', Option.bind_some]
        exact hloop
      · obtain ⟨σ1, hput, h⟩ := Option.bind_eq_some_iff.mp h
        have hput' := putc_calm hput
        obtain ⟨q, hq, hloop⟩ := ih h
        refine ⟨q, hq, ?_⟩
        show (FmtState.putc ⟨m1.calm, s1, σ.i, σ.args⟩ c').bind _ = _
        rw [show FmtState.putc ⟨m1.calm, s1, σ.i, σ.args⟩ c' = some σ1.calm from hput', Option.bind_some]
        exact hloop

theorem sdscatvfmt_calm {args : List VaArg} (h : sdscatvfmt m s fmt args = some (m', o)) :
    ∃ q, o = some q ∧ sdscatvfmt m.calm s fmt args = some (m'.calm, some q) := by
  unfold sdscatvfmt at h ⊢
  obtain ⟨b, hb, h⟩ := Option.bind_eq_some_iff.mp h
  obtain ⟨bs, hbs, h⟩ := Option.bind_eq_some_iff.mp h
  have hb' : m.calm.heap.get s = some b := hb
  rw [hb', Option.bind_some, bytes_calm, hbs, Option.bind_some]
  exact fmtLoop_calm h

end Format

end BeanRaft.Slice
