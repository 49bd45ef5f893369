import BeanRaft.Slice.Numerals
import BeanRaft.Slice.Values

/-!
# BeanRaft.Slice.Expand — what `appendFmt` appends

`expand` is the text that a format stands for, read off the format and the memory at the call.  `Written`: the loop of
`sdscatvfmt` has put a part of it behind the old bytes, wherever the string is by now.  `fmtLoop_expand`: the loop
appends the whole text, when the sources are not in the string itself.

A single `%` at the end of the format makes the loop step over the null term (`fmtLoop_percent`).
-/

namespace BeanRaft.Slice

open CInt Lib

/-! ## Formats -/

/-- A pointer into a live string is to one of its bytes or to its null term. -/
def Src.placed (m : Mem) : Src → Bool
  | .sds p off => (m.heap.get p).any fun h => off ≤ h.len
  | _ => true

/-- The text of an argument under the directive `%next`; `none` when it has another type. -/
def VaArg.text (m : Mem) (next : UInt8) : VaArg → Option (List Byte)
  | .str t =>
    if next = 115 then if t.placed m = true then (t.strlen m).bind (t.read m) else none -- 's'
    else if next = 83 then (t.sdslen m).bind (t.read m) -- 'S'
    else none
  | .int v => if next = 105 then some ((decimal v.toInt).map some) else none -- 'i'
  | .longlong v => if next = 73 then some ((decimal v.toInt).map some) else none -- 'I'
  | .uint v => if next = 117 then some ((numeral v.toNat).map some) else none -- 'u'
  | .ulonglong v => if next = 85 then some ((numeral v.toNat).map some) else none -- 'U'

/-- The characters that take an argument after `%`. -/
def directives : List UInt8 := [115, 83, 105, 73, 117, 85]

/-- The text that a format stands for; `none` when the arguments do not match its directives.  Nothing is said of a
single `%` at the end, which has no character after it. -/
def expand (m : Mem) : List UInt8 → List VaArg → Option (List Byte)
  | [], [] => some []
  | [], _ :: _ => none
  | c :: fs, args =>
    if c = 37 then
      match fs with
      | [] => if args = [] then some [] else none
      | next :: fs =>
        if next ∈ directives then
          match args with
          | [] => none
          | a :: args => (a.text m next).bind fun t => (expand m fs args).map (t ++ ·)
        else (expand m fs args).map (some next :: ·)
    else (expand m fs args).map (some c :: ·)

/-- A format and its text, character by character. -/
inductive Expands (m : Mem) : List UInt8 → List VaArg → List Byte → Prop
  | nil : Expands m [] [] []
  | percent : Expands m [37] [] []
  | arg {next : UInt8} {fs : List UInt8} {a : VaArg} {args : List VaArg} {t bs : List Byte} (hn : next ∈ directives)
    (ht : a.text m next = some t) (h : Expands m fs args bs) : Expands m (37 :: next :: fs) (a :: args) (t ++ bs)
  | other {next : UInt8} {fs : List UInt8} {args : List VaArg} {bs : List Byte} (hn : next ∉ directives)
    (h : Expands m fs args bs) : Expands m (37 :: next :: fs) args (some next :: bs)
  | char {c : UInt8} {fs : List UInt8} {args : List VaArg} {bs : List Byte} (hc : c ≠ 37) (h : Expands m fs args bs) :
    Expands m (c :: fs) args (some c :: bs)

/-- The format ends in a single `%`. -/
def endsInPercent : List UInt8 → Bool
  | [] => false
  | c :: fs =>
    if c = 37 then
      match fs with
      | [] => true
      | _ :: fs => endsInPercent fs
    else endsInPercent fs

/-- The string at the pointer is `fs`, with a null term. -/
def Src.IsString (m : Mem) (t : Src) (fs : List UInt8) : Prop :=
  0 ∉ fs ∧ t.placed m = true ∧ ∃ rest, t.bytes m = some (fs.map some ++ some 0 :: rest)

/-- The characters before the first 0. -/
def charsOf : List Byte → Option (List UInt8)
  | [] => none
  | none :: _ => none
  | some c :: bs => if c = 0 then some [] else (charsOf bs).map (c :: ·)

/-- The string at the pointer, read from memory. -/
def Src.chars (m : Mem) (t : Src) : Option (List UInt8) :=
  if t.placed m = true then (t.bytes m).bind charsOf else none

/-- An array that ends with the null term. -/
def Src.array (fs : List UInt8) : Src := .ext (fs.map some ++ [some 0])

/-- A string argument is not in the block at `p`. -/
def VaArg.outside (p : Ptr) : VaArg → Prop
  | .str t => t.inside p = false
  | _ => True

instance (p : Ptr) : ∀ a : VaArg, Decidable (a.outside p)
  | .str t => inferInstanceAs (Decidable (t.inside p = false))
  | .int _ | .uint _ | .longlong _ | .ulonglong _ => isTrue trivial

section Expand

variable {m : Mem} {fs : List UInt8} {args : List VaArg} {bs : List Byte}

theorem charsOf_eq (h : charsOf bs = some fs) : 0 ∉ fs ∧ ∃ rest, bs = fs.map some ++ some 0 :: rest := by
  induction bs generalizing fs with
  | nil => cases h
  | cons b bs ih =>
    cases b with
    | none => cases h
    | some c =>
      unfold charsOf at h
      split_ifs at h with hc
      · obtain rfl := Option.some.inj h
        subst hc
        exact ⟨List.not_mem_nil, bs, rfl⟩
      · obtain ⟨fs', hfs, rfl⟩ := Option.map_eq_some_iff.mp h
        obtain ⟨h0, rest, rfl⟩ := ih hfs
        exact ⟨fun hmem => (List.mem_cons.mp hmem).elim (fun h => hc h.symm) h0, rest, rfl⟩

theorem Src.isString_of_chars {t : Src} (h : t.chars m = some fs) : t.IsString m fs := by
  unfold Src.chars at h
  split_ifs at h with hplaced
  obtain ⟨bs, hbs, hfs⟩ := Option.bind_eq_some_iff.mp h
  obtain ⟨h0, rest, rfl⟩ := charsOf_eq hfs
  exact ⟨h0, hplaced, rest, hbs⟩

theorem expands_of_expand : ∀ {n : Nat} {fs : List UInt8} {args : List VaArg} {bs : List Byte}, fs.length ≤ n →
    expand m fs args = some bs → Expands m fs args bs := by
  intro n
  induction n with
  | zero =>
    intro fs args bs hn he
    obtain rfl := List.length_eq_zero_iff.mp (Nat.le_zero.mp hn)
    cases args with
    | nil =>
      obtain rfl := Option.some.inj he
      exact .nil
    | cons a args => cases he
  | succ n ih =>
    intro fs args bs hn he
    cases fs with
    | nil => exact ih (Nat.zero_le _) he
    | cons c fs =>
      simp only [List.length_cons] at hn
      unfold expand at he
      by_cases hc : c = 37
      · subst hc
        rw [if_pos rfl] at he
        cases fs with
        | nil =>
          simp only [Option.ite_none_right_eq_some] at he
          obtain ⟨rfl, he⟩ := he
          obtain rfl := Option.some.inj he
          exact .percent
        | cons next fs =>
          dsimp only at he
          simp only [List.length_cons] at hn
          split_ifs at he with hnext
          · cases args with
            | nil => cases he
            | cons a args =>
              obtain ⟨t, ht, he⟩ := Option.bind_eq_some_iff.mp he
              obtain ⟨bs', he', rfl⟩ := Option.map_eq_some_iff.mp he
              exact .arg hnext ht (ih (by omega) he')
          · obtain ⟨bs', he', rfl⟩ := Option.map_eq_some_iff.mp he
            exact .other hnext (ih (by omega) he')
      · rw [if_neg hc] at he
        obtain ⟨bs', he', rfl⟩ := Option.map_eq_some_iff.mp he
        exact .char hc (ih (by omega) he')

theorem Expands.of_expand (he : expand m fs args = some bs) : Expands m fs args bs :=
  expands_of_expand (Nat.le_refl _) he

end Expand

section Sources

variable {m m' : Mem} {t : Src} {p q n f : Nat} {b : Sdshdr} {all : List Byte} {fs : List UInt8}

theorem Src.sdslen_dead {off : Nat} (hp : m.heap.get p = none) : (Src.sds p off).sdslen m = none := by
  cases off with
  | zero =>
    show (m.heap.get p).map _ = none
    rw [hp]
    rfl
  | succ off => rfl

theorem Src.sdslen_moved (hmv : Moved m.heap.get p q b m'.heap.get) (hout : t.inside p = false)
    (hl : t.sdslen m = some n) : t.sdslen m' = some n := by
  unfold Src.sdslen at hl ⊢
  split at hl
  · rename_i x
    have hx : x ≠ p := by simpa [Src.inside] using hout
    obtain ⟨h, hh, hlen⟩ := Option.map_eq_some_iff.mp hl
    rw [(hmv.get_other hx (by rw [hh]; rfl)).1, hh]
    exact congrArg some hlen
  · cases hl

theorem Src.byte_eq (hb : t.bytes m = some all) : t.byte m f = all[f]?.join := by
  unfold Src.byte
  rw [hb]
  rfl

theorem Src.array_bytes : (Src.array fs).bytes m = some (fs.map some ++ [some 0]) := rfl

end Sources

/-! ## A part of the text is written -/

/-- The string that was at `p` in `m` is `text` by now, without a null term. -/
structure Written (m : Mem) (p : Ptr) (σ : FmtState) (h : Sdshdr) (text : List Byte) : Prop where
  moved : Moved m.heap.get p σ.s h σ.mem.heap.get
  fails : σ.mem.fails = []
  sound : Sound h
  len : h.len = σ.i
  text : h.buf.take h.len = text

section Written

variable {m : Mem} {p l n : Nat} {σ : FmtState} {h : Sdshdr} {t : Src} {text bs : List Byte} {c : UInt8}
  {args : List VaArg}

theorem Written.length (hw : Written m p σ h text) : text.length = σ.i := by
  have hroom := hw.sound.room
  rw [← hw.text, List.length_take, ← hw.len]
  omega

theorem Written.with_args (hw : Written m p σ h text) (args : List VaArg) :
    Written m p { σ with args := args } h text := ⟨hw.moved, hw.fails, hw.sound, hw.len, hw.text⟩

/-- Bytes are stored behind the text, where there is room, and counted. -/
theorem Written.store (hw : Written m p σ h text) (hn : bs.length ≤ h.sdsavail) {b : Sdshdr}
    (hwrite : h.write σ.i bs = some b) {m' : Mem} (hf : m'.fails = σ.mem.fails)
    (hget : m'.heap.get = Function.update σ.mem.heap.get σ.s (some (b.sdsinclen bs.length))) :
    Written m p { σ with mem := m', i := σ.i + bs.length } (b.sdsinclen bs.length) (text ++ bs) := by
  rw [← hw.len] at hwrite
  obtain ⟨hsound, hlen⟩ := hw.sound.written hn hwrite
  refine ⟨hw.moved.comp (.stay hget), hf.trans hw.fails, hsound, ?_, ?_⟩
  · rw [hlen, hw.len]
  · rw [hlen, ← hw.text]
    exact take_write (hdr_write_some hwrite).2.2.2

/-- Room is made for `n` bytes. -/
theorem Written.ensure (hw : Written m p σ h text) (hroomy : Roomy text.length n) :
    ∃ m1 s1 h1, (if h.sdsavail < n then room σ.mem σ.s n else some (σ.mem, σ.s)) = some (m1, s1) ∧
      Written m p { σ with mem := m1, s := s1 } h1 text ∧ n ≤ h1.sdsavail := by
  have hget := hw.moved.get_self
  split_ifs with hlt
  · have hlen : h.len < h.buf.length := Nat.lt_of_le_of_lt (Nat.le_add_right _ _) hw.sound.room
    rw [hw.length, ← hw.len] at hroomy
    obtain ⟨m1, q, hmake⟩ := makeRoom_isSome hw.fails hget hlen hlt hroomy
    rcases makeRoom_cases hw.fails hget hw.sound.len_lt hmake with ⟨hle, -, -⟩ | ⟨-, q', b, hq, -, hf, hmv, hgrown⟩
    · exact absurd hlt (Nat.not_lt_of_le hle)
    · cases hq
      obtain ⟨hsound, havail⟩ := hgrown.sound hroomy
      have hroomb := hsound.room
      refine ⟨m1, q, b, ?_, ⟨hw.moved.comp hmv, hf, hsound, hgrown.len.trans hw.len, ?_⟩, havail⟩
      · unfold room
        rw [hmake]
        rfl
      · have hlb := hgrown.len
        rw [hgrown.text b.len (by omega) (by omega) (by omega), hgrown.len, hw.text]
  · exact ⟨σ.mem, σ.s, h, rfl, hw, Nat.le_of_not_lt hlt⟩

/-- `put` appends the bytes that it reads when there is room. -/
theorem Written.put_read (hw : Written m p σ h text) {m1 : Mem} {s1 : Ptr} {h1 : Sdshdr}
    (hens : (if h.sdsavail < bs.length then room σ.mem σ.s bs.length else some (σ.mem, σ.s)) = some (m1, s1))
    (hw1 : Written m p { σ with mem := m1, s := s1 } h1 text) (havail : bs.length ≤ h1.sdsavail)
    (hread : t.read m1 bs.length = some bs) (hmeet : t.meets s1 σ.i bs.length = false) :
    ∃ σ' b, σ.put t bs.length = some σ' ∧ σ'.args = σ.args ∧ σ'.s = s1 ∧ h1.write σ.i bs = some b ∧
      Written m p σ' (b.sdsinclen bs.length) (text ++ bs) := by
  have hget1 : m1.heap.get s1 = some h1 := hw1.moved.get_self
  have hroom := hw1.sound.room
  have hlen1 : h1.len = σ.i := hw1.len
  obtain ⟨m2, hcpy⟩ := memcpy_isSome hmeet hread hget1 (by omega)
  obtain ⟨-, bs', b, b1, hread', hb, hwrite, hf2, hget2⟩ := memcpy_some hcpy
  obtain rfl : bs = bs' := Option.some.inj (hread.symm.trans hread')
  obtain rfl : h1 = b := Option.some.inj (hget1.symm.trans hb)
  obtain ⟨m3, hinc⟩ := modify_isSome (m := m2) (p := s1) (f := fun h => some (h.sdsinclen bs.length))
    (by rw [hget2, Function.update_self]) rfl
  obtain ⟨b2, hb2, hf3, hget3⟩ := modify_get (by rw [hget2, Function.update_self]) hinc
  obtain rfl := Option.some.inj hb2
  refine ⟨⟨m3, s1, σ.i + bs.length, σ.args⟩, b1, ?_, rfl, rfl, hwrite,
    hw1.store havail hwrite (hf3.trans hf2) (by rw [hget3, hget2, Function.update_idem])⟩
  unfold FmtState.put
  rw [hw.moved.get_self, Option.bind_some, hens, Option.bind_some]
  dsimp only
  rw [hcpy, Option.bind_some, hinc]
  rfl

/-- `put` appends the bytes of a source outside the string. -/
theorem Written.put (hw : Written m p σ h text) (hout : t.inside p = false) (hread : t.read m l = some bs)
    (hroomy : Roomy text.length bs.length) :
    ∃ σ' h', σ.put t l = some σ' ∧ σ'.args = σ.args ∧ Written m p σ' h' (text ++ bs) := by
  obtain rfl := Src.read_length hread
  obtain ⟨m1, s1, h1, hens, hw1, havail⟩ := hw.ensure hroomy
  have hread1 : t.read m1 bs.length = some bs := Src.read_moved hw1.moved hout hread
  have hmeet : t.meets s1 σ.i bs.length = false := by
    by_cases h0 : bs.length = 0
    · rw [h0]
      exact Src.meets_zero
    · exact Src.meets_of_inside (Src.inside_moved hw1.moved hout (Nat.pos_of_ne_zero h0) hread) _ _
  obtain ⟨σ', b, hput, hargs, -, -, hw'⟩ := hw.put_read hens hw1 havail hread1 hmeet
  exact ⟨σ', _, hput, hargs, hw'⟩

/-- `putc` appends a character in place. -/
theorem Written.putc (hw : Written m p σ h text) (havail : 1 ≤ h.sdsavail) :
    ∃ σ' b, σ.putc c = some σ' ∧ σ'.args = σ.args ∧ σ'.s = σ.s ∧ h.write σ.i [some c] = some b ∧
      Written m p σ' (b.sdsinclen 1) (text ++ [some c]) := by
  have hget := hw.moved.get_self
  have hroom := hw.sound.room
  have hlen := hw.len
  have hend : σ.i + [some c].length ≤ h.buf.length := by
    rw [List.length_singleton]
    omega
  obtain ⟨b, hb⟩ := hdr_write_isSome hend
  obtain ⟨m1, hmod⟩ := modify_isSome (h := b.sdsinclen 1)
    (f := fun h => (h.write σ.i [some c]).map (·.sdsinclen 1)) hget (by rw [hb]; rfl)
  obtain ⟨b2, hb2, hf, hget1⟩ := modify_get hget hmod
  rw [hb] at hb2
  obtain rfl := Option.some.inj hb2
  refine ⟨{ σ with mem := m1, i := σ.i + 1 }, b, ?_, rfl, rfl, hb,
    Written.store hw (show [some c].length ≤ h.sdsavail from havail) hb hf hget1⟩
  unfold FmtState.putc
  rw [hmod]
  rfl

end Written

/-! ## The directives -/

section Directive

variable {m : Mem} {p : Ptr} {σ : FmtState} {h : Sdshdr} {text t : List Byte} {next : UInt8} {a : VaArg}
  {args : List VaArg}

theorem toInt_toInt64 (v : Int32) : v.toInt64.toInt = v.toInt := Int32.toInt_toInt64 v

theorem numeral_uint64_length (v : UInt64) : (numeral v.toNat).length ≤ 20 := by
  have hlt := v.toNat_lt
  by_contra hle
  have := (lt_numeral_length (show 0 < 20 by decide)).mp (Nat.lt_of_not_le hle)
  omega

/-- What the formatters write into the local buffer. -/
theorem sdsll2str_buf (v : Int64) : ∃ l, sdsll2str (List.replicate SDS_LLSTR_SIZE none) v =
    some ((decimal v.toInt).map some ++ l, (decimal v.toInt).length) := by
  have h20 := decimal_int64_length v
  exact ⟨_, sdsll2str_eq (by rw [List.length_replicate]; exact Nat.lt_succ_of_le h20)⟩

theorem sdsull2str_buf (v : UInt64) : ∃ l, sdsull2str (List.replicate SDS_LLSTR_SIZE none) v =
    some ((numeral v.toNat).map some ++ l, (numeral v.toNat).length) := by
  have h20 := numeral_uint64_length v
  exact ⟨_, sdsull2str_eq (by rw [List.length_replicate]; exact Nat.lt_succ_of_le h20)⟩

/-- `%s` and `%S`: as many bytes as the string has are put. -/
theorem directive_str {u : Src} (hargs : σ.args = .str u :: args) (ht : (VaArg.str u).text m next = some t) :
    σ.directive next = (if next = 115 then u.strlen σ.mem else u.sdslen σ.mem).bind fun l =>
      { σ with args := args }.put u l := by
  have hstr : next = 115 ∨ next = 83 := by
    by_contra hno
    obtain ⟨h1, h2⟩ := not_or.mp hno
    simp [VaArg.text, h1, h2] at ht
  unfold FmtState.directive
  dsimp only
  rw [if_pos hstr, hargs]

/-- The other directives put the text of a number, from its buffer. -/
theorem directive_num (hargs : σ.args = a :: args) (ha : ∀ u, a ≠ .str u) (ht : a.text m next = some t) :
    ∃ l, σ.directive next = { σ with args := args }.put (.ext (t ++ l)) t.length := by
  unfold FmtState.directive
  dsimp only
  rw [hargs]
  cases a with
  | str u => exact absurd rfl (ha u)
  | int v =>
    simp only [VaArg.text, Option.ite_none_right_eq_some] at ht
    obtain ⟨rfl, ht⟩ := ht
    obtain rfl := Option.some.inj ht
    obtain ⟨l, hl⟩ := sdsll2str_buf v.toInt64
    rw [toInt_toInt64] at hl
    simp only [hl, List.length_map]
    exact ⟨l, rfl⟩
  | longlong v =>
    simp only [VaArg.text, Option.ite_none_right_eq_some] at ht
    obtain ⟨rfl, ht⟩ := ht
    obtain rfl := Option.some.inj ht
    obtain ⟨l, hl⟩ := sdsll2str_buf v
    simp only [hl, List.length_map]
    exact ⟨l, rfl⟩
  | uint v =>
    simp only [VaArg.text, Option.ite_none_right_eq_some] at ht
    obtain ⟨rfl, ht⟩ := ht
    obtain rfl := Option.some.inj ht
    obtain ⟨l, hl⟩ := sdsull2str_buf v.toUInt64
    rw [UInt32.toNat_toUInt64] at hl
    simp only [hl, List.length_map]
    exact ⟨l, rfl⟩
  | ulonglong v =>
    simp only [VaArg.text, Option.ite_none_right_eq_some] at ht
    obtain ⟨rfl, ht⟩ := ht
    obtain rfl := Option.some.inj ht
    obtain ⟨l, hl⟩ := sdsull2str_buf v
    simp only [hl, List.length_map]
    exact ⟨l, rfl⟩

/-- The text of a string argument is read at its length. -/
theorem text_str {u : Src} (ht : (VaArg.str u).text m next = some t) :
    (if next = 115 then u.strlen m else u.sdslen m) = some t.length ∧ u.read m t.length = some t ∧
      (next = 115 → u.placed m = true) := by
  unfold VaArg.text at ht
  dsimp only at ht
  split_ifs at ht with h1 hplaced h2
  · obtain ⟨l, hl, hread⟩ := Option.bind_eq_some_iff.mp ht
    obtain rfl := Src.read_length hread
    exact ⟨by rw [if_pos h1]; exact hl, hread, fun _ => hplaced⟩
  · obtain ⟨l, hl, hread⟩ := Option.bind_eq_some_iff.mp ht
    obtain rfl := Src.read_length hread
    exact ⟨by rw [if_neg h1]; exact hl, hread, fun h => absurd h h1⟩

/-- A directive appends the text of its argument. -/
theorem Written.directive (hw : Written m p σ h text) (hargs : σ.args = a :: args) (ht : a.text m next = some t)
    (hout : a.outside p) (hroomy : Roomy text.length t.length) :
    ∃ σ' h', σ.directive next = some σ' ∧ σ'.args = args ∧ Written m p σ' h' (text ++ t) := by
  have hw' := hw.with_args args
  cases a with
  | str u =>
    obtain ⟨hl, hread, -⟩ := text_str ht
    have hl' : (if next = 115 then u.strlen σ.mem else u.sdslen σ.mem) = some t.length := by
      split_ifs at hl ⊢
      · exact Src.strlen_moved hw.moved hout hl
      · exact Src.sdslen_moved hw.moved hout hl
    rw [directive_str hargs ht, hl', Option.bind_some]
    exact hw'.put hout hread hroomy
  | int | uint | longlong | ulonglong =>
    obtain ⟨l, hdir⟩ := directive_num hargs (by intro u hu; cases hu) ht
    rw [hdir]
    exact hw'.put rfl read_ext hroomy

/-- Any other character after `%` is appended. -/
theorem directive_other (hn : next ∉ directives) : σ.directive next = σ.putc next := by
  simp only [directives, List.mem_cons, List.not_mem_nil, or_false, not_or] at hn
  obtain ⟨h1, h2, h3, h4, h5, h6⟩ := hn
  unfold FmtState.directive
  dsimp only
  rw [if_neg (by simp [h1, h2]), if_neg h3, if_neg h4, if_neg h5, if_neg h6]

end Directive

/-! ## The loop -/

section Loop

variable {m : Mem} {p : Ptr} {σ : FmtState} {h : Sdshdr} {text bs all rest : List Byte} {c next : UInt8} {fmt : Src}
  {t : Src} {fs : List UInt8} {f fuel : Nat} {args : List VaArg}

/-- The string is finished: `text` with its null term is where the pointer returned is. -/
def Finished (m : Mem) (p : Ptr) (text : List Byte) (r : Option (Mem × Option Ptr)) : Prop :=
  ∃ m' q b, r = some (m', some q) ∧ Moved m.heap.get p q b m'.heap.get ∧ m'.fails = [] ∧ Sound b ∧
    b.len = text.length ∧ b.buf.take (text.length + 1) = text ++ [some 0]

/-- The null term. -/
theorem Written.finish (hw : Written m p σ h text) :
    Finished m p text ((σ.mem.modify σ.s fun h => h.write σ.i [some 0]).map (·, some σ.s)) := by
  have hroom := hw.sound.room
  have hlen := hw.len
  have htext := hw.length
  have hget := hw.moved.get_self
  have hend : σ.i + [some (0 : UInt8)].length ≤ h.buf.length := by
    rw [List.length_singleton]
    omega
  obtain ⟨b, hb⟩ := hdr_write_isSome hend
  obtain ⟨m1, hmod⟩ := modify_isSome (f := fun h => h.write σ.i [some 0]) hget hb
  obtain ⟨b', hb', hf, hget1⟩ := modify_get hget hmod
  obtain rfl := Option.some.inj (hb.symm.trans hb')
  obtain ⟨buf, hbuf, rfl⟩ := Option.map_eq_some_iff.mp hb
  obtain ⟨hsound, hmod'⟩ := hw.sound.grow (Nat.zero_le _) (Nat.add_zero _).symm (length_write hbuf)
  rw [hmod'] at hsound
  refine ⟨m1, σ.s, _, by rw [hmod]; rfl, hw.moved.comp (.stay hget1), hf.trans hw.fails, hsound, ?_, ?_⟩
  · exact hlen.trans htext.symm
  · rw [htext, ← hw.text, hlen]
    exact take_write hbuf

theorem Src.byte_drop (hb : t.bytes m = some all) (f k : Nat) : t.byte m (f + k) = (all.drop f)[k]?.join := by
  rw [Src.byte_eq hb, List.getElem?_drop]

/-- The turn of the loop on a character, up to the `switch`. -/
theorem Written.turn (fuel : Nat) (hw : Written m p σ h text) (hfmt : fmt.bytes m = some all) (hout : fmt.inside p = false)
    (hc0 : c ≠ 0) (hdrop : all.drop f = some c :: rest) (hone : Roomy text.length 1) :
    ∃ σ1 h1, σ1.args = σ.args ∧ Written m p σ1 h1 text ∧ 1 ≤ h1.sdsavail ∧
      fmtLoop fmt (fuel + 1) σ f = if c = 37 then (fmt.byte σ1.mem (f + 1)).bind fun next =>
        (σ1.directive next).bind fun σ => fmtLoop fmt fuel σ (f + 2)
      else (σ1.putc c).bind fun σ => fmtLoop fmt fuel σ (f + 1) := by
  obtain ⟨m1, s1, h1, hens, hw1, havail⟩ := hw.ensure hone
  have hlt : (h.sdsavail = 0) = (h.sdsavail < 1) := propext Nat.lt_one_iff.symm
  have hbyte : ∀ {m1 : Mem}, fmt.bytes m1 = some all → fmt.byte m1 f = some c := by
    intro m1 hb
    have := Src.byte_drop hb f 0
    rwa [hdrop] at this
  have hc1 : fmt.byte m1 f = some c := hbyte (Src.bytes_moved hw1.moved hout hfmt)
  refine ⟨{ σ with mem := m1, s := s1 }, h1, rfl, hw1, havail, ?_⟩
  rw [fmtLoop, hbyte (Src.bytes_moved hw.moved hout hfmt), Option.bind_some, if_neg hc0, hw.moved.get_self,
    Option.bind_some]
  simp only [hlt, hens, Option.bind_some, hc1]

/-- **The loop appends the text** that is left of the format. -/
theorem fmtLoop_expand (hfmt : fmt.bytes m = some all) (hout : fmt.inside p = false) (hexp : Expands m fs args bs)
    (hper : endsInPercent fs = false) (h0 : 0 ∉ fs) (hargout : ∀ a ∈ args, a.outside p)
    (hdrop : all.drop f = fs.map some ++ some 0 :: rest) (hfuel : fs.length < fuel) (hw : Written m p σ h text)
    (hargs : σ.args = args) (hroomy : Roomy text.length (bs.length + 1)) :
    Finished m p (text ++ bs) (fmtLoop fmt fuel σ f) := by
  have hbyte : ∀ {σ : FmtState} {h : Sdshdr} {text : List Byte}, Written m p σ h text →
      fmt.bytes σ.mem = some all := fun hw => Src.bytes_moved hw.moved hout hfmt
  induction hexp generalizing fuel f σ h text with
  | nil =>
    obtain ⟨fuel, rfl⟩ := Nat.exists_eq_add_one.mpr hfuel
    have hnull : fmt.byte σ.mem f = some 0 := by
      have := Src.byte_drop (hbyte hw) f 0
      rwa [hdrop] at this
    rw [fmtLoop, hnull, Option.bind_some, if_pos rfl, List.append_nil]
    exact hw.finish
  | percent => cases hper
  | @arg next fs a args t bs hn ht _ ih =>
    obtain ⟨fuel, rfl⟩ := Nat.exists_eq_add_one.mpr (Nat.zero_lt_of_lt hfuel)
    obtain ⟨σ1, h1, hargs1, hw1, -, heq⟩ := hw.turn fuel hfmt hout (by decide) hdrop
      (hroomy.mono (Nat.le_add_left 1 _))
    have hnext : fmt.byte σ1.mem (f + 1) = some next := by rw [Src.byte_drop (hbyte hw1), hdrop]; rfl
    rw [List.length_append] at hroomy
    obtain ⟨σ', h', hdir, hargs', hw'⟩ := hw1.directive (hargs1.trans hargs) ht (hargout a List.mem_cons_self)
      (hroomy.mono (by omega))
    rw [heq, if_pos rfl, hnext, Option.bind_some, hdir, Option.bind_some, ← List.append_assoc]
    refine ih hper (fun hmem => h0 (List.mem_cons_of_mem _ (List.mem_cons_of_mem _ hmem)))
      (fun a' ha' => hargout a' (List.mem_cons_of_mem _ ha')) ?_ ?_ hw' hargs' ?_
    · rw [← List.drop_drop, hdrop]
      rfl
    · simp only [List.length_cons] at hfuel
      omega
    · rw [List.length_append]
      unfold Roomy at hroomy ⊢
      omega
  | @other next fs args bs hn _ ih =>
    obtain ⟨fuel, rfl⟩ := Nat.exists_eq_add_one.mpr (Nat.zero_lt_of_lt hfuel)
    obtain ⟨σ1, h1, hargs1, hw1, havail, heq⟩ := hw.turn fuel hfmt hout (by decide) hdrop
      (hroomy.mono (Nat.le_add_left 1 _))
    have hnext : fmt.byte σ1.mem (f + 1) = some next := by rw [Src.byte_drop (hbyte hw1), hdrop]; rfl
    obtain ⟨σ', b, hput, hargs', -, -, hw'⟩ := hw1.putc (c := next) havail
    rw [heq, if_pos rfl, hnext, Option.bind_some, directive_other hn, hput, Option.bind_some, List.append_cons]
    refine ih hper (fun hmem => h0 (List.mem_cons_of_mem _ (List.mem_cons_of_mem _ hmem))) hargout ?_ ?_ hw'
      (hargs'.trans (hargs1.trans hargs)) ?_
    · rw [← List.drop_drop, hdrop]
      rfl
    · simp only [List.length_cons] at hfuel
      omega
    · simp only [List.length_append, List.length_cons, List.length_nil] at hroomy ⊢
      unfold Roomy at hroomy ⊢
      omega
  | @char c fs args bs hc _ ih =>
    obtain ⟨fuel, rfl⟩ := Nat.exists_eq_add_one.mpr (Nat.zero_lt_of_lt hfuel)
    obtain ⟨hc0, h0'⟩ := not_or.mp (List.mem_cons.not.mp h0)
    obtain ⟨σ1, h1, hargs1, hw1, havail, heq⟩ := hw.turn fuel hfmt hout (Ne.symm hc0) hdrop
      (hroomy.mono (Nat.le_add_left 1 _))
    obtain ⟨σ', b, hput, hargs', -, -, hw'⟩ := hw1.putc (c := c) havail
    rw [heq, if_neg hc, hput, Option.bind_some, List.append_cons]
    refine ih ?_ h0' hargout ?_ (Nat.lt_of_succ_lt_succ hfuel) hw' (hargs'.trans (hargs1.trans hargs)) ?_
    · unfold endsInPercent at hper
      rwa [if_neg hc] at hper
    · rw [← List.drop_drop, hdrop]
      rfl
    · simp only [List.length_append, List.length_cons, List.length_nil] at hroomy ⊢
      unfold Roomy at hroomy ⊢
      omega

/-- A single `%` at the end: the loop goes on behind the null term, where the array ends. -/
theorem fmtLoop_percent (hfmt : ∀ m, fmt.bytes m = some all) : ∀ {fuel f : Nat} {fs : List UInt8} {σ : FmtState},
    all.drop f = fs.map some ++ [some 0] → 0 ∉ fs → endsInPercent fs = true → fmtLoop fmt fuel σ f = none := by
  have hbyte0 : ∀ (m : Mem) (f : Nat), fmt.byte m f = (all.drop f)[0]?.join := fun m f => Src.byte_drop (hfmt m) f 0
  intro fuel
  induction fuel with
  | zero => exact fun _ _ _ => rfl
  | succ fuel ih =>
    intro f fs σ hdrop h0 hper
    cases fs with
    | nil => cases hper
    | cons c fs =>
      obtain ⟨hc0, h0'⟩ := not_or.mp (List.mem_cons.not.mp h0)
      by_contra hne
      obtain ⟨x, hx⟩ := Option.ne_none_iff_exists'.mp hne
      have hc1 : ∀ m, fmt.byte m f = some c := by
        intro m
        rw [hbyte0, hdrop]
        rfl
      unfold fmtLoop at hx
      rw [hc1, Option.bind_some, if_neg (Ne.symm hc0)] at hx
      obtain ⟨h, -, hx⟩ := Option.bind_eq_some_iff.mp hx
      obtain ⟨⟨m1, s1⟩, -, hx⟩ := Option.bind_eq_some_iff.mp hx
      dsimp only at hx
      rw [hc1, Option.bind_some] at hx
      by_cases hc : c = 37
      · subst hc
        rw [if_pos rfl] at hx
        obtain ⟨next, hnext, hx⟩ := Option.bind_eq_some_iff.mp hx
        obtain ⟨σ', -, hx⟩ := Option.bind_eq_some_iff.mp hx
        have hdrop2 : all.drop (f + 2) = (fs.map some ++ [some 0]).drop 1 := by
          rw [← List.drop_drop, hdrop]
          rfl
        cases fs with
        | nil =>
          -- there is no byte to go on with
          have hend : fmt.byte σ'.mem (f + 2) = none := by
            rw [hbyte0, hdrop2]
            rfl
          cases fuel with
          | zero => cases hx
          | succ fuel =>
            unfold fmtLoop at hx
            rw [hend] at hx
            cases hx
        | cons next' fs =>
          have h0'' := (not_or.mp (List.mem_cons.not.mp h0')).2
          rw [ih hdrop2 h0'' hper] at hx
          cases hx
      · rw [if_neg hc] at hx
        obtain ⟨σ', -, hx⟩ := Option.bind_eq_some_iff.mp hx
        have hper' : endsInPercent fs = true := by
          unfold endsInPercent at hper
          rwa [if_neg hc] at hper
        have hdrop1 : all.drop (f + 1) = fs.map some ++ [some 0] := by
          rw [← List.drop_drop, hdrop]
          rfl
        rw [ih hdrop1 h0' hper'] at hx
        cases hx

/-- The arguments that a format reads are not in a dead block. -/
theorem Expands.outside (hp : m.heap.get p = none) (he : Expands m fs args bs) : ∀ a ∈ args, a.outside p := by
  have htext : ∀ {a : VaArg} {next : UInt8} {t : List Byte}, a.text m next = some t → a.outside p := by
    intro a next t ht
    cases a with
    | str u =>
      show u.inside p = false
      by_contra hin
      obtain ⟨off, rfl⟩ := Src.exists_place (Bool.not_eq_false _ ▸ hin)
      simp [VaArg.text, Src.strlen, Src.bytes_dead hp, Src.sdslen_dead hp] at ht
    | int v => trivial
    | longlong v => trivial
    | uint v => trivial
    | ulonglong v => trivial
  induction he with
  | nil | percent =>
    intro a ha
    cases ha
  | @arg next fs a args t bs _ ht _ ih =>
    intro a' ha'
    rcases List.mem_cons.mp ha' with rfl | ha'
    · exact htext ht
    · exact ih a' ha'
  | other _ _ ih => exact ih
  | char _ _ ih => exact ih

end Loop

/-! ## appendFmt -/

section AppendFmt

variable {w w' w1 : World} {m m' : Mem} {x p : Nat} {h : Sdshdr} {fmt : Src} {fs : List UInt8} {args : List VaArg}
  {bs : List Byte}

theorem Src.placed_mono {t : Src} (hext : ∀ q, (m.heap.get q).isSome = true → m'.heap.get q = m.heap.get q)
    (h : t.placed m = true) : t.placed m' = true := by
  cases t with
  | sds q off =>
    obtain ⟨b, hb, hle⟩ := (Option.any_eq_true _ _).mp h
    exact (Option.any_eq_true _ _).mpr ⟨b, by rw [hext q (by rw [hb]; rfl), hb], hle⟩
  | null => rfl
  | noinit => rfl
  | ext bytes => rfl

theorem Expands.mono (hext : ∀ q, (m.heap.get q).isSome = true → m'.heap.get q = m.heap.get q)
    (he : Expands m fs args bs) : Expands m' fs args bs := by
  have hsds : ∀ {u : Src} {n : Nat}, u.sdslen m = some n → u.sdslen m' = some n := by
    intro u n hn
    unfold Src.sdslen at hn ⊢
    split at hn
    · obtain ⟨h, hh, hlen⟩ := Option.map_eq_some_iff.mp hn
      rw [hext _ (by rw [hh]; rfl), hh]
      exact congrArg some hlen
    · cases hn
  have htext : ∀ {a : VaArg} {next : UInt8} {t : List Byte}, a.text m next = some t → a.text m' next = some t := by
    intro a next t ht
    cases a with
    | str u =>
      unfold VaArg.text at ht ⊢
      dsimp only at ht ⊢
      split_ifs at ht with h1 hplaced h2
      · obtain ⟨l, hl, hread⟩ := Option.bind_eq_some_iff.mp ht
        rw [if_pos h1, if_pos (Src.placed_mono hext hplaced), Src.strlen_mono hext hl, Option.bind_some,
          Src.read_mono hext hread]
      · obtain ⟨l, hl, hread⟩ := Option.bind_eq_some_iff.mp ht
        rw [if_neg h1, if_pos h2, hsds hl, Option.bind_some, Src.read_mono hext hread]
    | int v => exact ht
    | longlong v => exact ht
    | uint v => exact ht
    | ulonglong v => exact ht
  induction he with
  | nil => exact .nil
  | percent => exact .percent
  | arg hn ht _ ih => exact .arg hn (htext ht) ih
  | other hn _ ih => exact .other hn ih
  | char hc _ ih => exact .char hc ih

/-- The call returns, and the object holds its old bytes and then `bs`, with a null term, in a block of its own with
room for all of them. -/
def Appends (w : World) (x : Nat) (fmt : Src) (args : List VaArg) (bs : List Byte) : Prop :=
  ∃ w', w.appendFmt x fmt args = some w' ∧ Wf w' ∧ w'.Holds x (w.held x ++ bs)

/-- Neither the format nor a string argument is in the object's own string. -/
def World.Outside (w : World) (x : Nat) (fmt : Src) (args : List VaArg) : Prop :=
  ∀ p, w.data x = some p → fmt.inside p = false ∧ ∀ a ∈ args, a.outside p

instance (w : World) (x : Nat) (fmt : Src) (args : List VaArg) : Decidable (w.Outside x fmt args) :=
  match h : w.data x with
  | none => isTrue fun p hp => by rw [h] at hp; cases hp
  | some p => decidable_of_iff (fmt.inside p = false ∧ ∀ a ∈ args, a.outside p)
      ⟨fun hk q hq => by rw [h] at hq; cases hq; exact hk, fun hk => hk p h⟩

theorem array_isString (h0 : 0 ∉ fs) : (Src.array fs).IsString m fs := ⟨h0, rfl, [], rfl⟩

/-- When the loop has finished the string, `appendFmt` has. -/
theorem appends_of_finished {all : List Byte} (hinit : w.initIfNeed x = some w1) (hi : Inited w x w1 p h)
    (hbytes : fmt.bytes w1.mem = some all)
    (hfin : Finished w1.mem p (w.held x ++ bs) (fmtLoop fmt (all.length + 1) ⟨w1.mem, p, h.len, args⟩ 0)) :
    Appends w x fmt args bs := by
  obtain ⟨m', q, b, hloop, hmv, hf, hsb, hlb, htb⟩ := hfin
  have hcall : sdscatvfmt w1.mem p fmt args = some (m', some q) := by
    unfold sdscatvfmt
    rw [hi.get, Option.bind_some, hbytes, Option.bind_some]
    exact hloop
  have hrep : Replaced w1.mem p m' (some q) :=
    ⟨q, b, rfl, hf, hmv, hsb, terminated_of_take hlb.symm (by rw [hlb]; exact htb)⟩
  refine ⟨⟨m', w1.slices.set x (some q)⟩, ?_, hi.wf.replaced hi.data hrep, ?_⟩
  · unfold World.appendFmt
    rw [hinit, Option.bind_some, call_eq hi.data, hcall]
    rfl
  · have hd : World.data ⟨m', w1.slices.set x (some q)⟩ x = some q := by
      rw [data_set (data_lt hi.data), Function.update_self]
    unfold World.Holds
    rw [string_of_data hd, show World.mem ⟨m', w1.slices.set x (some q)⟩ = m' from rfl, hmv.get_self]
    exact ⟨hlb, htb⟩

theorem appends_of_expand (hw : Wf w) (hx : x < w.slices.length) (hfmt : fmt.IsString w.mem fs)
    (he : expand w.mem fs args = some bs) (hout : w.Outside x fmt args) (hroomy : Roomy (w.size x) (bs.length + 1))
    (hper : endsInPercent fs = false) : Appends w x fmt args bs := by
  obtain ⟨h0, -, rest, hbytes⟩ := hfmt
  obtain ⟨w1, p, h, hinit, hi⟩ := init_isSome hw hx
  obtain ⟨h', hh', hs, -⟩ := hi.wf.live x p hi.data
  obtain rfl := Option.some.inj (hi.get.symm.trans hh')
  have hroom := hs.room
  -- a block that `_initIfNeed` allocates is not one of the sources
  obtain ⟨hin, hargs⟩ : fmt.inside p = false ∧ ∀ a ∈ args, a.outside p := by
    rcases hi.place with hd | ⟨-, hdead⟩
    · exact hout p hd
    · refine ⟨?_, (Expands.of_expand he).outside hdead⟩
      by_contra hin
      obtain ⟨off, rfl⟩ := Src.exists_place (Bool.not_eq_false _ ▸ hin)
      rw [Src.bytes_dead hdead] at hbytes
      cases hbytes
  have hbytes1 := Src.bytes_mono hi.live hbytes
  have hwritten : Written w1.mem p ⟨w1.mem, p, h.len, args⟩ h (w.held x) :=
    ⟨.refl hi.get, hi.wf.fails, hs, rfl, hi.held⟩
  have hlen : (w.held x).length = w.size x := (size_held hw x).symm
  have hfuel : fs.length < (fs.map some ++ some 0 :: rest).length + 1 := by
    simp only [List.length_append, List.length_map]
    omega
  exact appends_of_finished hinit hi hbytes1 (fmtLoop_expand hbytes1 hin ((Expands.of_expand he).mono hi.live) hper h0
    hargs rfl hfuel hwritten rfl (by rwa [hlen]))

end AppendFmt

end BeanRaft.Slice
