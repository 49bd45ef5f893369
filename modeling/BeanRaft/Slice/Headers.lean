import BeanRaft.Slice.Expand

/-!
# BeanRaft.Slice.Headers — the headers of the strings, and the sizes

The constructors, `append` with arguments outside the object's string, `appendFmt` and `clear` as a transition system
whose state counts the bytes that were put into each object.

* `HeaderOk`: the header of a string agrees with its block.
* `HeaderStepOk`: a copy or move constructor finds nothing in the storage of its object that is not its to free, and the
  source of a copy has a string.  `headers_iff`: the headers are right and the sizes are the counts if and only if this
  holds of every step.
-/

namespace BeanRaft.Slice

open CInt Lib Lts

/-- `sdsalloc`: type 5 has no free space. -/
def Sdshdr.sdsalloc (h : Sdshdr) : Nat :=
  match h.type with
  | .type5 => h.len
  | _ => h.alloc

/-- The header agrees with its block. -/
structure HeaderOk (h : Sdshdr) : Prop where
  len_lt : h.len < 2 ^ h.type.bits
  alloc_lt : h.sdsalloc < 2 ^ h.type.bits
  len_le : h.len ≤ h.sdsalloc
  block : h.sdsalloc + 1 ≤ h.buf.length
  null : h.buf[h.len]? = some (some 0)

/-! ## The system -/

/-- The number of bytes that a call puts into its object; `none` for a call that is not considered: one with an argument
that cannot be read or is in the object's own string, or of an overload of `append` for characters and numbers. -/
def Act.puts (w : World) : Act → Option Nat
  | .default => some 0
  | .ofCStr s => if s = .null then some 0 else s.strlen w.mem
  | .ofBytes s len =>
    if 0 ≤ len.toInt ∧ (s = .null ∨ s = .noinit ∨ (s.read w.mem len.toInt.toNat).isSome = true) then some len.toInt.toNat
    else none
  | .copy _ s | .move _ s => if s < w.slices.length then some (w.size s) else none
  | .append x a =>
    if x < w.slices.length ∧ a.stored = true ∧ a ≠ .slice x ∧ w.owns x (a.source w) = false then
      (a.appended w).map List.length
    else none
  | .appendFmt x fmt args =>
    if x < w.slices.length ∧ w.Outside x fmt args then
      (fmt.chars w.mem).bind fun fs =>
        if endsInPercent fs = true then none else (expand w.mem fs args).map List.length
    else none
  | .clear x => if x < w.slices.length then some 0 else none

/-- The length of the object's string after the call. -/
def Act.total (w : World) (n : Nat) : Act → Nat
  | .append x _ | .appendFmt x _ _ => w.size x + n
  | _ => n

/-- The counts after a call; a move takes the bytes of its source along. -/
def Act.count (w : World) (n : Nat) (counts : Nat → Nat) : Act → Nat → Nat
  | .default | .ofCStr _ | .ofBytes _ _ => Function.update counts w.slices.length n
  | .copy _ s => Function.update counts w.slices.length (counts s)
  | .move _ s => Function.update (Function.update counts s 0) w.slices.length (counts s)
  | .append x _ | .appendFmt x _ _ => Function.update counts x (counts x + n)
  | .clear x => Function.update counts x 0

/-- The objects after a call; `none` is undefined behaviour. -/
def World.outcome (w : World) : Act → Option World
  | .append x a => (w.append x a).map Prod.fst
  | act => w.other act

/-- The objects, and the number of bytes put into each since its construction or its last `clear`. -/
inductive HeaderState
  | running (w : World) (counts : Nat → Nat)
  | undefined

def HeaderState.step : HeaderState → Act → Option HeaderState
  | .undefined, _ => none
  | .running w counts, act => (act.puts w).bind fun n =>
    if act.total w n < 2 ^ 62 then
      some (match w.outcome act with
        | none => .undefined
        | some w' => .running w' (act.count w n counts))
    else none

def HeaderState.start : HeaderState := .running ⟨⟨⟨[]⟩, []⟩, []⟩ fun _ => 0

def headers : System HeaderState Act where
  init s := s = .start
  step := HeaderState.step

/-- The strings are in live blocks that agree with their headers, and the sizes are the counts. -/
def HeadersOk : HeaderState → Prop
  | .running w counts => ∀ x, (∀ p, w.data x = some p → ∃ h, w.mem.heap.get p = some h ∧ HeaderOk h) ∧
      w.size x = counts x
  | .undefined => False

/-- The condition on a step. -/
def HeaderStepOk : HeaderState → Act → Prop
  | .running w _, .copy raw s => RawOk w raw ∧ w.data s ≠ none
  | .running w _, .move raw _ => RawOk w raw
  | _, _ => True

section Headers

variable {w w' : World} {x s n : Nat} {t fmt : Src} {a : Arg} {raw : Option Ptr} {h : Sdshdr} {bs : List Byte}
  {args : List VaArg} {counts : Nat → Nat}

theorem headerOk_of_sound (hs : Sound h) (ht : Terminated h) : HeaderOk h := by
  have hroom := hs.room
  by_cases h5 : h.type = .type5
  · have halloc : h.sdsalloc = h.len := by
      unfold Sdshdr.sdsalloc
      rw [h5]
    exact ⟨hs.len_lt, by rw [halloc]; exact hs.len_lt, Nat.le_of_eq halloc.symm, by omega, ht⟩
  · have halloc : h.sdsalloc = h.alloc := by
      unfold Sdshdr.sdsalloc
      split
      · exact absurd ‹_› h5
      · rfl
    have hle := hs.len_le h5
    rw [sdsavail_eq h5 hle (hs.alloc_lt h5)] at hroom
    exact ⟨hs.len_lt, by rw [halloc]; exact hs.alloc_lt h5, by rw [halloc]; exact hle, by omega, ht⟩

/-! ## The calls that work -/

theorem size_update (hw : Wf w) (hw' : Wf w') (hheld : w'.held = Function.update w.held x bs) :
    w'.size = Function.update w.size x bs.length := by
  funext y
  rw [size_held hw', hheld]
  by_cases hy : y = x
  · rw [hy, Function.update_self, Function.update_self]
  · rw [Function.update_of_ne hy, Function.update_of_ne hy, size_held hw]

theorem construct_size (hw : Wf w) (hn : n < 2 ^ 62)
    (hread : t ≠ .null → t ≠ .noinit → ∃ bs, t.read w.mem n = some bs) :
    ∃ w', w.construct (sdsnewlen w.mem t n) = some w' ∧ Wf w' ∧
      w'.size = Function.update w.size w.slices.length n := by
  obtain ⟨⟨m, r⟩, hnew⟩ := sdsnewlen_isSome hw.fails (by omega) hread
  have hplace : World.data ⟨m, w.slices ++ [r]⟩ = Function.update w.data w.slices.length r := data_push
  obtain ⟨hwf, hother, b, q, -, hstr, hlen, -⟩ := place_new hw hnew rfl hplace
  refine ⟨⟨m, w.slices ++ [r]⟩, by rw [hnew]; rfl, hwf, ?_⟩
  rw [size_update hw hwf (held_update hother rfl), ← size_held hwf, size_of_string hstr, hlen]

theorem read_of_strlen {m : Mem} (hn : t.strlen m = some n) : ∃ bs, t.read m n = some bs := by
  obtain ⟨all, hall, hlen⟩ := Option.bind_eq_some_iff.mp hn
  obtain ⟨hlt, -⟩ := List.getElem?_eq_some_iff.mp (strlenOf_get hlen)
  unfold Src.read
  split_ifs with h0
  · exact ⟨[], rfl⟩
  · rw [hall, Option.bind_some, Lib.read, if_pos (by rw [Nat.zero_add]; exact Nat.le_of_lt hlt)]
    exact ⟨_, rfl⟩

/-- The condition on an append is met: the overload stores the pointer, and the lengths are small. -/
theorem callOk_of_puts (hown : w.owns x (a.source w) = false) (hst : a.stored = true)
    (hn : w.size x + n < 2 ^ 62) (hnull : w.data x = none → a.isNull w = false) : CallOk w x a n := by
  refine ⟨?_, hnull⟩
  by_cases hle : n ≤ w.avail x
  · refine .inl ⟨hle, ?_⟩
    unfold World.overlaps
    unfold World.owns at hown
    cases hd : w.data x with
    | none => rfl
    | some p =>
      rw [hd] at hown
      exact Src.meets_of_inside hown _ _
  · refine .inr ⟨Nat.lt_of_not_le hle, hst, hown, ?_⟩
    unfold Roomy SDS_MAX_PREALLOC
    omega

theorem append_size (hw : Wf w) (hx : x < w.slices.length) (hst : a.stored = true)
    (hown : w.owns x (a.source w) = false) (hb : a.appended w = some bs) (hn : w.size x + bs.length < 2 ^ 62) :
    ∃ w', (w.append x a).map Prod.fst = some w' ∧ Wf w' ∧
      w'.size = Function.update w.size x (w.size x + bs.length) := by
  by_cases hnull : a.isNull w = true
  · obtain ⟨he, rfl, -⟩ := append_null (x := x) hnull hb
    exact ⟨w, by rw [he]; rfl, hw, (Function.update_eq_self _ _).symm⟩
  · have hok := callOk_of_puts hown hst hn fun _ => Bool.eq_false_iff.mpr hnull
    obtain ⟨w', r, hr, hwf, hholds, -, hother⟩ := (append_outcome hw hx hb).1 hok
    refine ⟨w', by rw [hr]; rfl, hwf, ?_⟩
    rw [size_update hw hwf (held_update hother (held_of_holds hholds)), List.length_append, size_held hw]

theorem appendFmt_size {fs : List UInt8} (hw : Wf w) (hx : x < w.slices.length) (hfs : fmt.chars w.mem = some fs)
    (he : expand w.mem fs args = some bs) (hout : w.Outside x fmt args) (hper : endsInPercent fs = false)
    (hn : w.size x + bs.length < 2 ^ 62) : ∃ w', w.appendFmt x fmt args = some w' ∧ Wf w' ∧
      w'.size = Function.update w.size x (w.size x + bs.length) := by
  have hroomy : Roomy (w.size x) (bs.length + 1) := by
    unfold Roomy SDS_MAX_PREALLOC
    omega
  obtain ⟨w', hr, hwf, hholds⟩ := appends_of_expand hw hx (Src.isString_of_chars hfs) he hout hroomy hper
  refine ⟨w', hr, hwf, ?_⟩
  rw [size_update hw hwf (held_update (wf_appendFmt hw hx hr).2 (held_of_holds hholds)), List.length_append,
    size_held hw]

theorem copyConstruct_size (hw : Wf w) (hraw : RawOk w raw) (hd : w.data s ≠ none) (hn : w.size s < 2 ^ 62) :
    ∃ w', w.copyConstruct raw s = some w' ∧ Wf w' ∧
      w'.size = Function.update w.size w.slices.length (w.size s) := by
  obtain ⟨w', hr, hwf, hheld⟩ := copyConstruct_ok hw hraw ⟨hd, by omega⟩
  exact ⟨w', hr, hwf, by rw [size_update hw hwf hheld, size_held hw s]⟩

theorem moveConstruct_size (hw : Wf w) (hraw : RawOk w raw) (hs : s < w.slices.length) :
    ∃ w', w.moveConstruct raw s = some w' ∧ Wf w' ∧
      w'.size = Function.update (Function.update w.size s 0) w.slices.length (w.size s) := by
  obtain ⟨w', hr, hwf, hheld⟩ := moveConstruct_ok hw hraw hs
  -- the source is left without a string
  have hempty : w'.held s = [] := by
    apply held_of_none
    unfold World.moveConstruct at hr
    rw [if_pos hs] at hr
    obtain ⟨m, -, rfl⟩ := Option.map_eq_some_iff.mp hr
    have hdata : World.data ⟨m, w.slices.set s none ++ [w.data s]⟩ = _ := data_moved hs
    rw [hdata, Function.update_of_ne (Nat.ne_of_lt hs), Function.update_self]
  refine ⟨w', hr, hwf, ?_⟩
  funext y
  rw [size_held hwf, hheld, hempty]
  by_cases hy : y = w.slices.length
  · rw [hy, Function.update_self, Function.update_self, size_held hw]
  · rw [Function.update_of_ne hy, Function.update_of_ne hy]
    by_cases hys : y = s
    · rw [hys, Function.update_self, Function.update_self]
      rfl
    · rw [Function.update_of_ne hys, Function.update_of_ne hys, size_held hw]

/-- **A call that meets the condition** returns, and counts. -/
theorem outcome_ok {act : Act} (hw : Wf w) (hn : act.puts w = some n) (htotal : act.total w n < 2 ^ 62)
    (hok : HeaderStepOk (.running w counts) act) :
    ∃ w', w.outcome act = some w' ∧ Wf w' ∧ w'.size = act.count w n w.size := by
  cases act with
  | default =>
    obtain rfl := Option.some.inj hn
    obtain ⟨hwf, hheld⟩ := default_ok hw
    exact ⟨_, rfl, hwf, size_update hw hwf hheld⟩
  | ofCStr t =>
    unfold Act.puts at hn
    show ∃ w', w.construct (sdsnew w.mem t) = some w' ∧ _
    unfold sdsnew
    dsimp only at hn
    split_ifs at hn ⊢ with hnull
    · obtain rfl := Option.some.inj hn
      exact construct_size hw htotal fun hne => absurd hnull hne
    · rw [hn, Option.bind_some]
      exact construct_size hw htotal fun _ _ => read_of_strlen hn
  | ofBytes t len =>
    simp only [Act.puts, Option.ite_none_right_eq_some] at hn
    obtain ⟨⟨hpos, hread⟩, hn⟩ := hn
    have hlt := len.toInt_lt
    obtain rfl := Option.some.inj hn
    show ∃ w', w.construct (sdsnewlen w.mem t (uint64 len.toInt)) = some w' ∧ _
    rw [uint64_of_range hpos (by omega)]
    exact construct_size hw htotal fun h1 h2 =>
      Option.isSome_iff_exists.mp ((hread.resolve_left h1).resolve_left h2)
  | copy raw s =>
    simp only [Act.puts, Option.ite_none_right_eq_some] at hn
    obtain ⟨-, hn⟩ := hn
    obtain rfl := Option.some.inj hn
    exact copyConstruct_size hw hok.1 hok.2 htotal
  | move raw s =>
    simp only [Act.puts, Option.ite_none_right_eq_some] at hn
    exact moveConstruct_size hw hok hn.1
  | append x a =>
    simp only [Act.puts, Option.ite_none_right_eq_some] at hn
    obtain ⟨⟨hx, hst, -, hown⟩, hn⟩ := hn
    obtain ⟨bs, hb, rfl⟩ := Option.map_eq_some_iff.mp hn
    exact append_size hw hx hst hown hb htotal
  | appendFmt x fmt args =>
    simp only [Act.puts, Option.ite_none_right_eq_some] at hn
    obtain ⟨⟨hx, hout⟩, hn⟩ := hn
    obtain ⟨fs, hfs, hn⟩ := Option.bind_eq_some_iff.mp hn
    split_ifs at hn with hper
    obtain ⟨bs, he, rfl⟩ := Option.map_eq_some_iff.mp hn
    show ∃ w', (if x < w.slices.length then w.appendFmt x fmt args else none) = some w' ∧ _
    rw [if_pos hx]
    exact appendFmt_size hw hx hfs he hout (Bool.eq_false_iff.mpr hper) htotal
  | clear x =>
    simp only [Act.puts, Option.ite_none_right_eq_some] at hn
    obtain ⟨w', hr, hwf, hheld⟩ := release_ok hw hn.1
    refine ⟨w', ?_, hwf, size_update hw hwf hheld⟩
    show w.clear x = some w'
    rw [clear_eq hn.1, hr]

/-! ## The calls that do not -/

theorem stepOk_of_live {act : Act} (hw : Wf w) (hr : w.outcome act = some w')
    (hlive : ∀ x p, w'.data x = some p → (w'.mem.heap.get p).isSome = true) : HeaderStepOk (.running w counts) act := by
  cases act with
  | copy raw s =>
    obtain ⟨hraw, hcopy⟩ := copyConstruct_bad hw hr hlive
    exact ⟨hraw, hcopy.1⟩
  | move raw s => exact moveConstruct_bad hr hlive
  | default | ofCStr | ofBytes | append | appendFmt | clear => trivial

/-! ## Runs -/

/-- The objects are well-formed, too. -/
def HeaderState.Wf : HeaderState → Prop
  | .running w counts => Slice.Wf w ∧ w.size = counts
  | .undefined => False

theorem HeaderState.wf_start : HeaderState.start.Wf := by
  refine ⟨⟨rfl, fun x p hx => ?_, fun x y p hx _ => ?_⟩, rfl⟩
  · cases hx
  · cases hx

theorem HeaderState.Wf.headersOk {σ : HeaderState} (h : σ.Wf) : HeadersOk σ := by
  cases σ with
  | undefined => exact h
  | running w counts =>
    obtain ⟨hw, rfl⟩ := h
    refine fun x => ⟨fun p hd => ?_, rfl⟩
    obtain ⟨h, hh, hs, ht⟩ := hw.live x p hd
    exact ⟨h, hh, headerOk_of_sound hs ht⟩

/-- What a step does. -/
theorem HeaderState.step_some {σ' : HeaderState} {act : Act} (hr : headers.step (.running w counts) act = some σ') :
    ∃ n, act.puts w = some n ∧ act.total w n < 2 ^ 62 ∧ (w.outcome act = none ∧ σ' = .undefined ∨
      ∃ w', w.outcome act = some w' ∧ σ' = .running w' (act.count w n counts)) := by
  obtain ⟨n, hn, hr⟩ := Option.bind_eq_some_iff.mp (show (act.puts w).bind _ = some σ' from hr)
  simp only [Option.ite_none_right_eq_some] at hr
  obtain ⟨htotal, hr⟩ := hr
  refine ⟨n, hn, htotal, ?_⟩
  cases ho : w.outcome act with
  | none =>
    rw [ho] at hr
    exact .inl ⟨rfl, (Option.some.inj hr).symm⟩
  | some w' =>
    rw [ho] at hr
    exact .inr ⟨w', rfl, (Option.some.inj hr).symm⟩

theorem HeaderState.Wf.step {σ σ' : HeaderState} {act : Act} (h : σ.Wf) (hok : HeaderStepOk σ act)
    (hr : headers.step σ act = some σ') : σ'.Wf := by
  cases σ with
  | undefined => exact h.elim
  | running w counts =>
    obtain ⟨hw, rfl⟩ := h
    obtain ⟨n, hn, htotal, hσ'⟩ := step_some hr
    obtain ⟨w', ho, hwf, hsize⟩ := outcome_ok hw hn htotal hok
    rcases hσ' with ⟨hnone, -⟩ | ⟨w1, ho1, rfl⟩
    · rw [ho] at hnone
      cases hnone
    · obtain rfl := Option.some.inj (ho.symm.trans ho1)
      exact ⟨hwf, hsize⟩

theorem HeaderState.Wf.bad {σ σ' : HeaderState} {act : Act} (h : σ.Wf) (hno : ¬ HeaderStepOk σ act)
    (hr : headers.step σ act = some σ') : ¬ HeadersOk σ' := by
  cases σ with
  | undefined => exact h.elim
  | running w counts =>
    obtain ⟨n, -, -, hσ'⟩ := step_some hr
    rcases hσ' with ⟨-, rfl⟩ | ⟨w', ho, rfl⟩
    · exact id
    · intro hk
      refine hno (stepOk_of_live h.1 ho fun x p hd => ?_)
      obtain ⟨b, hb, -⟩ := (hk x).1 p hd
      rw [hb]
      rfl

/-- **The headers are right** and the sizes are the counts, in every state of a run, if and only if every copy or move
constructor meets the condition. -/
theorem headers_iff (acts : List Act) :
    Always headers HeadersOk .start acts ↔ StepsOk headers HeaderStepOk .start acts :=
  always_iff_stepsOk (fun _ hk => HeaderState.Wf.headersOk hk) (fun _ _ _ hk hok hr => hk.step hok hr)
    (fun _ _ _ hk hno hr => hk.bad hno hr) HeaderState.wf_start acts

/-- The storage of a copy holds the pointer of another object, whose string is freed. -/
theorem staleCopy_not_ok :
    ¬ Always headers HeadersOk .start [.ofBytes (.ext [some 97]) 1, .copy (some 0) 0] := by
  intro h
  exact h.exec rfl

end Headers

end BeanRaft.Slice
