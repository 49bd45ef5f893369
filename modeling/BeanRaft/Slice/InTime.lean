import BeanRaft.Slice.Expand

/-!
# BeanRaft.Slice.InTime — a format or an argument in the string itself

`appendFmt` reads the format and its arguments while it writes the string, so one that is in the object's own string is
read as it was at the call only for some time: until the string moves, and a C string until its null term is overwritten.

* `InTime`: everything is read in time, by the sizes of what is appended in each turn of the loop.
* `OneTurn`: a turn of the loop, which is a directive with its argument, an escaped character or another character.
* `text_end`, `isString_end`: where a source in a string ends.
-/

namespace BeanRaft.Slice

open CInt Lib

/-! ## The condition -/

/-- What a turn of the loop appends: so many bytes, and from this source under `%next`. -/
structure Turn where
  size : Nat
  src : Option (UInt8 × Src)

def VaArg.turn (m : Mem) (next : UInt8) (a : VaArg) : Turn where
  size := (a.text m next).elim 0 List.length
  src := match a with
    | .str t => some (next, t)
    | _ => none

/-- The turns of the loop on a format. -/
def turns (m : Mem) : List UInt8 → List VaArg → List Turn
  | [], _ => []
  | c :: fs, args =>
    if c = 37 then
      match fs with
      | [] => []
      | next :: fs =>
        if next ∈ directives then
          match args with
          | [] => []
          | a :: args => a.turn m next :: turns m fs args
        else ⟨1, none⟩ :: turns m fs args
    else ⟨1, none⟩ :: turns m fs args

/-- The offset of a pointer into a string. -/
def Src.place : Src → Nat
  | .sds _ off => off
  | _ => 0

def Turn.Outside (p : Ptr) (u : Turn) : Prop := ∀ src ∈ u.src, src.2.inside p = false

section Condition

variable (p : Ptr) (h : Sdshdr) (keeps : Bool) (fmt : Src) (size : Nat)

/-- So many bytes at the begin of the block are still what they were when `k` bytes have been appended.  The first byte
overwrites the null term; `keeps` says that it is a 0, too. -/
def unchanged (k : Nat) : Nat := if k = 0 ∨ keeps = true then h.len + 1 else h.len

/-- A string of `n` bytes is not in the block, or is unchanged with its null term. -/
def Src.Kept (k n : Nat) (t : Src) : Prop := t.inside p = true → t.place + n < unchanged h keeps k

/-- `%s` looks for the null term, `%S` at the length in the header. -/
def Turn.Kept (k : Nat) (u : Turn) : Prop :=
  ∀ src ∈ u.src, if src.1 = 115 then src.2.Kept p h keeps k u.size else src.2.inside p = true → k = 0

/-- After `k` bytes the turns that are left, and the format of `size` characters, are read in time: while the string has
free space for what is appended it stays where it is, and after that nothing in the old block is read. -/
def InTime : Nat → List Turn → Prop
  | k, [] => fmt.Kept p h keeps k size
  | k, u :: us =>
    if k + max u.size 1 ≤ h.sdsavail then u.Kept p h keeps k ∧ InTime (k + u.size) us
    else fmt.inside p = false ∧ ∀ v ∈ u :: us, v.Outside p

end Condition

/-! ## Turns -/

section Turns

variable {m : Mem} {next c : UInt8} {fs : List UInt8} {a : VaArg} {args : List VaArg} {t bs : List Byte} {p : Ptr}

theorem turns_arg (hn : next ∈ directives) : turns m (37 :: next :: fs) (a :: args) = a.turn m next :: turns m fs args := by
  rw [turns.eq_def]
  dsimp only
  rw [if_pos rfl, if_pos hn]

theorem turns_other (hn : next ∉ directives) : turns m (37 :: next :: fs) args = ⟨1, none⟩ :: turns m fs args := by
  rw [turns.eq_def]
  dsimp only
  rw [if_pos rfl, if_neg hn]

theorem turns_char (hc : c ≠ 37) : turns m (c :: fs) args = ⟨1, none⟩ :: turns m fs args := by
  rw [turns.eq_def]
  dsimp only
  rw [if_neg hc]

theorem turn_size (ht : a.text m next = some t) : (a.turn m next).size = t.length := by
  unfold VaArg.turn
  rw [ht]
  rfl

theorem outside_turn : (a.turn m next).Outside p ↔ a.outside p := by
  cases a with
  | str u => exact ⟨fun h => h _ rfl, fun h src hsrc => by cases hsrc; exact h⟩
  | int | uint | longlong | ulonglong => exact ⟨fun _ => trivial, fun _ src hsrc => by cases hsrc⟩

theorem outside_none {n : Nat} : Turn.Outside p ⟨n, none⟩ := by
  intro src hsrc
  cases hsrc

/-- Every argument is read in a turn. -/
theorem Expands.outside_of_turns (he : Expands m fs args bs) (hout : ∀ v ∈ turns m fs args, v.Outside p) :
    ∀ a ∈ args, a.outside p := by
  induction he with
  | nil | percent =>
    intro a ha
    cases ha
  | arg hn _ _ ih =>
    rw [turns_arg hn] at hout
    intro a' ha'
    rcases List.mem_cons.mp ha' with rfl | ha'
    · exact outside_turn.mp (hout _ List.mem_cons_self)
    · exact ih (fun v hv => hout v (List.mem_cons_of_mem _ hv)) a' ha'
  | other hn _ ih =>
    rw [turns_other hn] at hout
    exact ih fun v hv => hout v (List.mem_cons_of_mem _ hv)
  | char hc _ ih =>
    rw [turns_char hc] at hout
    exact ih fun v hv => hout v (List.mem_cons_of_mem _ hv)

/-- A turn on the format: what it appends, and the format and the arguments that are left. -/
inductive OneTurn (m : Mem) : List UInt8 → List VaArg → Turn → List Byte → List UInt8 → List VaArg → Prop
  | arg {next : UInt8} {fs : List UInt8} {a : VaArg} {args : List VaArg} {t : List Byte} (hn : next ∈ directives)
    (ht : a.text m next = some t) : OneTurn m (37 :: next :: fs) (a :: args) (a.turn m next) t fs args
  | other {next : UInt8} {fs : List UInt8} {args : List VaArg} (hn : next ∉ directives) :
    OneTurn m (37 :: next :: fs) args ⟨1, none⟩ [some next] fs args
  | char {c : UInt8} {fs : List UInt8} {args : List VaArg} (hc : c ≠ 37) :
    OneTurn m (c :: fs) args ⟨1, none⟩ [some c] fs args

/-- A format begins with a turn. -/
theorem Expands.turn (he : Expands m fs args bs) (hper : endsInPercent fs = false) (hne : fs ≠ []) :
    ∃ u t fs' args' bs', OneTurn m fs args u t fs' args' ∧ bs = t ++ bs' ∧ Expands m fs' args' bs' ∧
      endsInPercent fs' = false ∧ fs'.length < fs.length := by
  cases he with
  | nil => exact absurd rfl hne
  | percent => cases hper
  | @arg next fs a args t bs hn ht he =>
    exact ⟨_, t, fs, args, bs, .arg hn ht, rfl, he, hper, by rw [List.length_cons, List.length_cons]; omega⟩
  | @other next fs args bs hn he =>
    exact ⟨_, _, fs, args, bs, .other hn, rfl, he, hper, by rw [List.length_cons, List.length_cons]; omega⟩
  | @char c fs args bs hc he =>
    unfold endsInPercent at hper
    rw [if_neg hc] at hper
    exact ⟨_, _, fs, args, bs, .char hc, rfl, he, hper, Nat.lt_succ_self _⟩

theorem OneTurn.turns {u : Turn} {fs' : List UInt8} {args' : List VaArg} (ho : OneTurn m fs args u t fs' args') :
    turns m fs args = u :: turns m fs' args' ∧ u.size = t.length := by
  cases ho with
  | arg hn ht => exact ⟨turns_arg hn, turn_size ht⟩
  | other hn => exact ⟨turns_other hn, rfl⟩
  | char hc => exact ⟨turns_char hc, rfl⟩

end Turns

/-! ## Sources in a string -/

section Sources

variable {m m' : Mem} {p : Ptr} {h h0 : Sdshdr} {u fmt : Src} {t : List Byte} {next c : UInt8} {n k f j off : Nat}
  {all fs : List UInt8}

theorem meets_before (hle : off + n ≤ k) : (Src.sds p off).meets p k n = false := by
  refine decide_eq_false ?_
  rintro ⟨-, -, hlt⟩
  omega

theorem take_len (hs : Sound h0) : (h0.buf.take h0.len).length = h0.len := by
  have hroom := hs.room
  rw [List.length_take]
  omega

theorem unchanged_le (h : Sdshdr) (keeps : Bool) (k : Nat) : h.len ≤ unchanged h keeps k := by
  unfold unchanged
  split <;> omega

theorem bytes_sds (hg : m.heap.get p = some h) (hle : off ≤ h.buf.length) :
    (Src.sds p off).bytes m = some (h.buf.drop off) := by
  show (m.heap.get p).bind _ = _
  rw [hg, Option.bind_some, if_pos hle]

theorem strlen_sds (hg : m.heap.get p = some h) (hl : (Src.sds p off).strlen m = some n) :
    off ≤ h.buf.length ∧ strlenOf (h.buf.drop off) = some n := by
  obtain ⟨bs, hbs, hl⟩ := Option.bind_eq_some_iff.mp hl
  have hb : (m.heap.get p).bind _ = some bs := hbs
  rw [hg, Option.bind_some] at hb
  split_ifs at hb with hoff
  obtain rfl := Option.some.inj hb
  exact ⟨hoff, hl⟩

theorem byte_sds (hg : m.heap.get p = some h) :
    (Src.sds p off).byte m j = some c ↔ h.buf[off + j]? = some (some c) := by
  unfold Src.byte Src.bytes
  dsimp only
  rw [hg, Option.bind_some]
  by_cases hoff : off ≤ h.buf.length
  · rw [if_pos hoff, Option.bind_some, List.getElem?_drop]
    exact Option.join_eq_some_iff
  · rw [if_neg hoff, List.getElem?_eq_none (Nat.le_trans (Nat.le_of_not_le hoff) (Nat.le_add_right _ _))]
    exact iff_of_false nofun nofun

theorem sdslen_sds (hg : m.heap.get p = some h) (hl : (Src.sds p off).sdslen m = some n) :
    off = 0 ∧ n = h.len := by
  cases off with
  | succ off => cases hl
  | zero =>
    obtain ⟨b, hb, rfl⟩ := Option.map_eq_some_iff.mp (show (m.heap.get p).map Sdshdr.len = _ from hl)
    obtain rfl := Option.some.inj (hg.symm.trans hb)
    exact ⟨rfl, rfl⟩

/-- A string inside ends at the null term of its block, or before. -/
theorem strlen_placed (hg : m.heap.get p = some h) (ht : Terminated h) (hle : off ≤ h.len)
    (hl : (Src.sds p off).strlen m = some n) : off + n ≤ h.len := by
  have := strlenOf_le_null (strlen_sds hg hl).2 (j := h.len - off) (by
    rw [List.getElem?_drop, Nat.add_sub_cancel' hle]
    exact ht)
  omega

/-- Where the text of a string inside ends. -/
theorem text_end (hg : m.heap.get p = some h0) (ht0 : Terminated h0)
    (ht : (VaArg.str (.sds p off)).text m next = some t) : off + t.length ≤ h0.len := by
  obtain ⟨hl, -, hplaced⟩ := text_str ht
  split_ifs at hl with h115
  · obtain ⟨b, hb, hle⟩ := (Option.any_eq_true _ _).mp (hplaced h115)
    obtain rfl := Option.some.inj (hg.symm.trans hb)
    exact strlen_placed hg ht0 (of_decide_eq_true hle) hl
  · obtain ⟨rfl, hlen⟩ := sdslen_sds hg hl
    omega

theorem take_drop_eq {l l' : List Byte} (h : l'.take k = l.take k) (hle : off + n ≤ k) :
    (l'.drop off).take n = (l.drop off).take n := by
  have h' := congrArg (List.take (off + n)) h
  rw [List.take_take, List.take_take, Nat.min_eq_left hle] at h'
  rw [List.take_drop, List.take_drop, h']

/-- A part of the block that is unchanged is read as before. -/
theorem read_unchanged (hg : m.heap.get p = some h0) (hg' : m'.heap.get p = some h)
    (hlen : h.buf.length = h0.buf.length) (htake : h.buf.take k = h0.buf.take k) (hle : off + n ≤ k)
    (hread : (Src.sds p off).read m n = some t) : (Src.sds p off).read m' n = some t := by
  unfold Src.read at hread ⊢
  split_ifs at hread ⊢ with hn
  · exact hread
  · have hoff : off ≤ h0.buf.length := by
      by_contra hoff
      rw [show (Src.sds p off).bytes m = none by
        show (m.heap.get p).bind _ = _
        rw [hg, Option.bind_some, if_neg hoff]] at hread
      cases hread
    rw [bytes_sds hg hoff, Option.bind_some] at hread
    rw [bytes_sds hg' (by omega), Option.bind_some]
    obtain ⟨hfit, rfl, -⟩ := read_some hread
    unfold Lib.read
    rw [if_pos (by rw [List.length_drop] at hfit ⊢; omega), List.drop_zero, List.drop_zero, take_drop_eq htake hle]

/-- A format inside ends at the null term of its block, or before. -/
theorem isString_end (hg : m.heap.get p = some h0) (ht0 : Terminated h0)
    (hfmt : (Src.sds p off).IsString m all) : off + all.length ≤ h0.len := by
  obtain ⟨hnull, hplaced, rest, hbytes⟩ := hfmt
  obtain ⟨b, hb, hle⟩ := (Option.any_eq_true _ _).mp hplaced
  obtain rfl := Option.some.inj (hg.symm.trans hb)
  refine strlen_placed hg ht0 (of_decide_eq_true hle) ?_
  unfold Src.strlen
  rw [hbytes, Option.bind_some]
  exact strlenOf_text hnull rest

/-- The format as it was at the call. -/
theorem byte_of_isString (hfmt : fmt.IsString m all) (hj : j ≤ all.length) : fmt.byte m j = (all ++ [0])[j]? := by
  obtain ⟨-, -, rest, hbytes⟩ := hfmt
  have hlt : j < ((all ++ [0]).map (some : UInt8 → Byte)).length := by
    rw [List.length_map, List.length_append]
    exact Nat.lt_succ_of_le hj
  rw [Src.byte_eq hbytes, List.append_cons, ← List.map_singleton, ← List.map_append, List.getElem?_append_left hlt,
    List.getElem?_map]
  cases (all ++ [0])[j]? <;> rfl

theorem drop_of_drop (hdrop : all.drop f = c :: fs) : all.drop (f + 1) = fs := by
  rw [← List.drop_drop, hdrop]
  rfl

/-- A character of the format is not its null term. -/
theorem ne_zero_of_drop (hfmt : fmt.IsString m all) (hdrop : all.drop f = c :: fs) : c ≠ 0 := by
  rintro rfl
  exact hfmt.1 (List.mem_of_mem_drop (hdrop ▸ List.mem_cons_self))

theorem getElem?_of_drop (hdrop : all.drop f = c :: fs) : all[f]? = some c := by
  rw [← Nat.add_zero f, ← List.getElem?_drop, hdrop]
  rfl

/-- The characters of a format inside are in the part that does not change. -/
theorem kept_char (hg : m.heap.get p = some h0) (ht0 : Terminated h0) (hfmt : fmt.IsString m all)
    (hdrop : all.drop f = c :: fs) (keeps : Bool) (k : Nat) : fmt.Kept p h0 keeps k f ∧ fmt.byte m f = some c := by
  have hget := getElem?_of_drop hdrop
  obtain ⟨hlt, -⟩ := List.getElem?_eq_some_iff.mp hget
  refine ⟨fun hin => ?_, ?_⟩
  · obtain ⟨off, rfl⟩ := Src.exists_place hin
    have hend := isString_end hg ht0 hfmt
    have hle := unchanged_le h0 keeps k
    show off + f < _
    omega
  · rw [byte_of_isString hfmt (Nat.le_of_lt hlt), List.getElem?_append_left hlt, hget]

end Sources

end BeanRaft.Slice
