import BeanRaft.Slice.Repr

/-!
# BeanRaft.Slice.Args — the command lines that sdssplitargs reads

* `Line`: the grammar of a line and of its arguments, in its own terms: words that are bare, or end with a part in
  quotes, and blanks between them.
* `dquoted`, `squoted`, `word`, `splitArgs`: the same as a reader from left to right, in the order of the source's
  tests.  `splitArgs_iff`: it accepts exactly the lines of the grammar.
* `line_of_reprs`: the escaped forms of any arguments, with blanks between them, are a line with these arguments.
-/

namespace BeanRaft.Slice

/-! ## Characters -/

/-- In the locale "C". -/
def isspace (c : UInt8) : Bool := c = 32 ∨ (9 ≤ c ∧ c ≤ 13)

def is_hex_digit (c : UInt8) : Bool := (48 ≤ c ∧ c ≤ 57) ∨ (97 ≤ c ∧ c ≤ 102) ∨ (65 ≤ c ∧ c ≤ 70)

def hex_digit_to_int (c : UInt8) : UInt8 :=
  if 48 ≤ c ∧ c ≤ 57 then c - 48 else if 97 ≤ c ∧ c ≤ 102 then c - 87 else if 65 ≤ c ∧ c ≤ 70 then c - 55 else 0

/-- The byte of `\xhh`. -/
def hexByte (h1 h2 : UInt8) : UInt8 := hex_digit_to_int h1 * 16 + hex_digit_to_int h2

/-- The byte of a backslash and `c` in double quotes. -/
def unescape (c : UInt8) : UInt8 :=
  if c = 110 then 10 else if c = 114 then 13 else if c = 116 then 9 else if c = 98 then 8 else if c = 97 then 7 else c

/-- The blanks that end a bare word. -/
def endsWord (c : UInt8) : Bool := c = 32 ∨ c = 10 ∨ c = 13 ∨ c = 9

/-! ## The grammar -/

/-- What stands between double quotes, and the bytes it stands for. -/
inductive DBody : List UInt8 → List UInt8 → Prop
  | nil : DBody [] []
  | hex {h1 h2 : UInt8} {cs bs : List UInt8} (hh1 : is_hex_digit h1 = true) (hh2 : is_hex_digit h2 = true)
      (rest : DBody cs bs) : DBody (92 :: 120 :: h1 :: h2 :: cs) (hexByte h1 h2 :: bs)
  | esc {e : UInt8} {cs bs : List UInt8}
      (hno : ∀ h1 h2 cs', e = 120 → cs = h1 :: h2 :: cs' → ¬ (is_hex_digit h1 = true ∧ is_hex_digit h2 = true))
      (rest : DBody cs bs) : DBody (92 :: e :: cs) (unescape e :: bs)
  | char {c : UInt8} {cs bs : List UInt8} (hc : c ≠ 92) (hq : c ≠ 34) (rest : DBody cs bs) : DBody (c :: cs) (c :: bs)

/-- What stands between single quotes: only the quote itself can be escaped. -/
inductive SBody : List UInt8 → List UInt8 → Prop
  | nil : SBody [] []
  | esc {cs bs : List UInt8} (rest : SBody cs bs) : SBody (92 :: 39 :: cs) (39 :: bs)
  | char {c : UInt8} {cs bs : List UInt8} (hq : c ≠ 39) (hno : c = 92 → ∃ d cs', cs = d :: cs' ∧ d ≠ 39)
      (rest : SBody cs bs) : SBody (c :: cs) (c :: bs)

/-- No blank that ends a word, and no quote. -/
def Bare (w : List UInt8) : Prop := ∀ c ∈ w, endsWord c = false ∧ c ≠ 34 ∧ c ≠ 39

/-- A word, the argument it stands for, and whether it ends with a quote. -/
inductive Word : List UInt8 → List UInt8 → Bool → Prop
  | bare {w : List UInt8} (hw : Bare w) : Word w w false
  | dquoted {w cs bs : List UInt8} (hw : Bare w) (body : DBody cs bs) : Word (w ++ 34 :: (cs ++ [34])) (w ++ bs) true
  | squoted {w cs bs : List UInt8} (hw : Bare w) (body : SBody cs bs) : Word (w ++ 39 :: (cs ++ [39])) (w ++ bs) true

/-- What may follow a word. -/
def Separates (quoted : Bool) (rest : List UInt8) : Prop :=
  ∀ c cs, rest = c :: cs → (if quoted then isspace c else endsWord c) = true

/-- The first character of a word is no blank. -/
def Starts (w : List UInt8) : Prop := ∃ c cs, w = c :: cs ∧ isspace c = false

/-- A line and its arguments. -/
inductive Line : List UInt8 → List (List UInt8) → Prop
  | blank {bl : List UInt8} (hbl : ∀ c ∈ bl, isspace c = true) : Line bl []
  | word {bl w tok rest : List UInt8} {quoted : Bool} {toks : List (List UInt8)} (hbl : ∀ c ∈ bl, isspace c = true)
      (hw : Word w tok quoted) (hs : Starts w) (hsep : Separates quoted rest) (tail : Line rest toks) :
      Line (bl ++ (w ++ rest)) (tok :: toks)

/-! ## From left to right -/

/-- One more byte in front of an argument. -/
def consByte (c : UInt8) (r : Option (List UInt8 × List UInt8)) : Option (List UInt8 × List UInt8) :=
  r.map fun (tok, rest) => (c :: tok, rest)

/-- A closing quote must be followed by a blank or by nothing at all. -/
def closed (cs : List UInt8) : Bool := cs.head?.all isspace

def hexEscape : List UInt8 → Bool
  | c :: x :: h1 :: h2 :: _ => c = 92 ∧ x = 120 ∧ is_hex_digit h1 ∧ is_hex_digit h2
  | _ => false

/-- Behind a double quote: the bytes up to the closing one, and what follows it. -/
def dquoted : List UInt8 → Option (List UInt8 × List UInt8)
  | [] => none
  | c :: cs =>
    if hexEscape (c :: cs) then
      match cs with
      | _ :: h1 :: h2 :: cs => consByte (hexByte h1 h2) (dquoted cs)
      | _ => none
    else if c = 92 ∧ cs ≠ [] then
      match cs with
      | e :: cs => consByte (unescape e) (dquoted cs)
      | [] => none
    else if c = 34 then if closed cs then some ([], cs) else none
    else consByte c (dquoted cs)

/-- Behind a single quote. -/
def squoted : List UInt8 → Option (List UInt8 × List UInt8)
  | [] => none
  | c :: cs =>
    if c = 92 ∧ cs.head? = some 39 then
      match cs with
      | _ :: cs => consByte 39 (squoted cs)
      | [] => none
    else if c = 39 then if closed cs then some ([], cs) else none
    else consByte c (squoted cs)

def word : List UInt8 → Option (List UInt8 × List UInt8)
  | [] => some ([], [])
  | c :: cs =>
    if endsWord c then some ([], cs)
    else if c = 34 then dquoted cs
    else if c = 39 then squoted cs
    else consByte c (word cs)

/-- The arguments of a line that has less than `n` characters. -/
def argsWithin : Nat → List UInt8 → Option (List (List UInt8))
  | 0, _ => none
  | n + 1, cs =>
    match cs.dropWhile isspace with
    | [] => some []
    | c :: cs => (word (c :: cs)).bind fun (tok, rest) => (argsWithin n rest).map (tok :: ·)

def splitArgs (cs : List UInt8) : Option (List (List UInt8)) := argsWithin (cs.length + 1) cs

example : splitArgs [97, 34, 92, 120, 52, 49, 34, 32, 39, 98, 32, 99, 39] = some [[97, 65], [98, 32, 99]] := by decide

/-! ## The reader and the grammar -/

section Reader

variable {c e h1 h2 : UInt8} {w body cs bs tok rest : List UInt8} {n : Nat}

theorem consByte_some {r : Option (List UInt8 × List UInt8)} (h : consByte c r = some (tok, rest)) :
    ∃ tok', r = some (tok', rest) ∧ tok = c :: tok' := by
  obtain ⟨⟨tok', rest'⟩, hr, he⟩ := Option.map_eq_some_iff.mp h
  cases he
  exact ⟨tok', hr, rfl⟩

theorem hexEscape_ne (hc : c ≠ 92) : hexEscape (c :: cs) = false := by
  rcases cs with _ | ⟨x, _ | ⟨h1, _ | ⟨h2, cs⟩⟩⟩
  · rfl
  · rfl
  · rfl
  · simp [hexEscape, hc]

theorem hexEscape_cons4 : hexEscape (92 :: 120 :: h1 :: h2 :: cs) = (is_hex_digit h1 && is_hex_digit h2) := by
  simp [hexEscape]

/-- Two digits would have to be there before the closing quote. -/
theorem hexEscape_esc
    (hno : ∀ h1 h2 cs', e = 120 → cs = h1 :: h2 :: cs' → ¬ (is_hex_digit h1 = true ∧ is_hex_digit h2 = true)) :
    hexEscape (92 :: e :: (cs ++ 34 :: rest)) = false := by
  by_contra hne
  have htrue : hexEscape (92 :: e :: (cs ++ 34 :: rest)) = true := by simpa using hne
  rcases cs with _ | ⟨h1, _ | ⟨h2, cs⟩⟩
  · rcases rest with _ | ⟨r, rest⟩
    · cases htrue
    · simp [hexEscape, is_hex_digit] at htrue
  · simp [hexEscape, is_hex_digit] at htrue
  · simp only [List.cons_append, hexEscape, Bool.decide_and, Bool.and_eq_true, decide_eq_true_eq] at htrue
    exact hno h1 h2 cs htrue.2.1 rfl ⟨htrue.2.2.1, htrue.2.2.2⟩

theorem dquoted_hex (h : hexEscape (92 :: 120 :: h1 :: h2 :: cs) = true) :
    dquoted (92 :: 120 :: h1 :: h2 :: cs) = consByte (hexByte h1 h2) (dquoted cs) := by
  rw [dquoted.eq_def]
  exact if_pos h

theorem dquoted_esc (h : hexEscape (92 :: e :: cs) = false) :
    dquoted (92 :: e :: cs) = consByte (unescape e) (dquoted cs) := by
  rw [dquoted.eq_def]
  dsimp only
  rw [h, if_neg (by decide), if_pos ⟨rfl, by simp⟩]

theorem dquoted_char (h : hexEscape (c :: cs) = false) (hc : ¬ (c = 92 ∧ cs ≠ [])) : dquoted (c :: cs) =
    if c = 34 then if closed cs then some ([], cs) else none else consByte c (dquoted cs) := by
  rw [dquoted.eq_def]
  dsimp only
  rw [h, if_neg (by decide), if_neg hc]

theorem squoted_esc : squoted (92 :: 39 :: cs) = consByte 39 (squoted cs) := by
  rw [squoted.eq_def]
  exact if_pos ⟨rfl, rfl⟩

theorem squoted_char (hc : ¬ (c = 92 ∧ cs.head? = some 39)) : squoted (c :: cs) =
    if c = 39 then if closed cs then some ([], cs) else none else consByte c (squoted cs) := by
  rw [squoted.eq_def]
  exact if_neg hc

theorem dquoted_of_body (hb : DBody body tok) (hclosed : closed rest = true) :
    dquoted (body ++ 34 :: rest) = some (tok, rest) := by
  induction hb with
  | nil => rw [List.nil_append, dquoted_char (hexEscape_ne (by decide)) (fun h => absurd h.1 (by decide)),
      if_pos rfl, if_pos hclosed]
  | hex hh1 hh2 _ ih =>
    rw [List.cons_append, List.cons_append, List.cons_append, List.cons_append, dquoted_hex, ih]
    · rfl
    · rw [hexEscape_cons4, hh1, hh2]
      rfl
  | esc hno _ ih =>
    rw [List.cons_append, List.cons_append, dquoted_esc (hexEscape_esc hno), ih]
    rfl
  | char hc hq _ ih =>
    rw [List.cons_append, dquoted_char (hexEscape_ne hc) (fun h => hc h.1), if_neg hq, ih]
    rfl

theorem body_of_dquoted (h : dquoted cs = some (tok, rest)) :
    ∃ body, cs = body ++ 34 :: rest ∧ DBody body tok ∧ closed rest = true := by
  fun_induction dquoted cs generalizing tok with
  | case1 => cases h
  | case2 c x h1 h2 cs hhex ih =>
    obtain ⟨tok', hr, rfl⟩ := consByte_some h
    obtain ⟨body, rfl, hb, hclosed⟩ := ih hr
    simp only [hexEscape, Bool.decide_and, Bool.and_eq_true, decide_eq_true_eq] at hhex
    obtain ⟨rfl, rfl, hh1, hh2⟩ := hhex
    exact ⟨92 :: 120 :: h1 :: h2 :: body, rfl, .hex hh1 hh2 hb, hclosed⟩
  | case3 => cases h
  | case4 c e cs hhex hc ih =>
    obtain ⟨tok', hr, rfl⟩ := consByte_some h
    obtain ⟨body, rfl, hb, hclosed⟩ := ih hr
    obtain ⟨rfl, -⟩ := hc
    refine ⟨92 :: e :: body, rfl, .esc (fun h1 h2 cs' he hcs hdig => hhex ?_) hb, hclosed⟩
    rw [he, hcs]
    show hexEscape (92 :: 120 :: h1 :: h2 :: (cs' ++ 34 :: rest)) = true
    rw [hexEscape_cons4, hdig.1, hdig.2]
    rfl
  | case5 c hhex hc => exact absurd rfl hc.2
  | case6 cs hclosed =>
    cases h
    exact ⟨[], rfl, .nil, hclosed⟩
  | case7 => cases h
  | case8 c cs hhex hc hq ih =>
    obtain ⟨tok', hr, rfl⟩ := consByte_some h
    obtain ⟨body, rfl, hb, hclosed⟩ := ih hr
    refine ⟨c :: body, rfl, .char (fun h92 => hc ⟨h92, by simp⟩) hq hb, hclosed⟩

theorem squoted_of_body (hb : SBody body tok) (hclosed : closed rest = true) :
    squoted (body ++ 39 :: rest) = some (tok, rest) := by
  induction hb with
  | nil => rw [List.nil_append, squoted_char (fun h => absurd h.1 (by decide)), if_pos rfl, if_pos hclosed]
  | esc _ ih =>
    rw [List.cons_append, List.cons_append, squoted_esc, ih]
    rfl
  | char hq hno _ ih =>
    rw [List.cons_append, squoted_char, if_neg hq, ih]
    · rfl
    · rintro ⟨h92, hhead⟩
      obtain ⟨d, cs', rfl, hd⟩ := hno h92
      exact hd (Option.some.inj hhead)

theorem body_of_squoted (h : squoted cs = some (tok, rest)) :
    ∃ body, cs = body ++ 39 :: rest ∧ SBody body tok ∧ closed rest = true := by
  fun_induction squoted cs generalizing tok with
  | case1 => cases h
  | case2 c x cs hc ih =>
    obtain ⟨tok', hr, rfl⟩ := consByte_some h
    obtain ⟨body, rfl, hb, hclosed⟩ := ih hr
    obtain ⟨rfl, hx⟩ := hc
    obtain rfl := Option.some.inj hx
    exact ⟨92 :: 39 :: body, rfl, .esc hb, hclosed⟩
  | case3 c hc => cases hc.2
  | case4 cs hclosed =>
    cases h
    exact ⟨[], rfl, .nil, hclosed⟩
  | case5 => cases h
  | case6 c cs hc hq ih =>
    obtain ⟨tok', hr, rfl⟩ := consByte_some h
    obtain ⟨body, rfl, hb, hclosed⟩ := ih hr
    refine ⟨c :: body, rfl, .char hq (fun h92 => ?_) hb, hclosed⟩
    rcases body with _ | ⟨d, body⟩
    · exact absurd ⟨h92, rfl⟩ hc
    · exact ⟨d, body, rfl, fun hd => hc ⟨h92, congrArg some hd⟩⟩

/-- What is left for the next word: the blank behind a bare word is gone already. -/
def afterWord (quoted : Bool) (rest : List UInt8) : List UInt8 := if quoted then rest else rest.tail

theorem closed_of_separates (h : Separates true rest) : closed rest = true := by
  cases rest with
  | nil => rfl
  | cons c cs => exact h c cs rfl

theorem separates_of_closed (h : closed rest = true) : Separates true rest := by
  rintro c cs rfl
  exact h

theorem word_of_bare (hw : Bare w) (tail : List UInt8) :
    word (w ++ tail) = (word tail).map fun (tok, rest) => (w ++ tok, rest) := by
  induction w with
  | nil => simp
  | cons c w ih =>
    obtain ⟨hend, hd, hs⟩ := hw c List.mem_cons_self
    rw [List.cons_append, word, hend, if_neg (by decide), if_neg hd, if_neg hs,
      ih fun c hc => hw c (List.mem_cons_of_mem _ hc)]
    cases word tail <;> rfl

theorem word_of_word {quoted : Bool} (hw : Word w tok quoted) (hsep : Separates quoted rest) :
    word (w ++ rest) = some (tok, afterWord quoted rest) := by
  cases hw with
  | bare hw =>
    rw [word_of_bare hw]
    cases rest with
    | nil => simp [word, afterWord]
    | cons c cs =>
      have hc : endsWord c = true := hsep c cs rfl
      rw [word, if_pos hc]
      simp [afterWord]
  | dquoted hw body =>
    rw [List.append_assoc, word_of_bare hw, List.cons_append, List.append_assoc, word]
    show ((dquoted _).map _) = _
    rw [List.singleton_append, dquoted_of_body body (closed_of_separates hsep)]
    rfl
  | squoted hw body =>
    rw [List.append_assoc, word_of_bare hw, List.cons_append, List.append_assoc, word]
    show ((squoted _).map _) = _
    rw [List.singleton_append, squoted_of_body body (closed_of_separates hsep)]
    rfl

theorem bare_cons (hend : ¬ endsWord c = true) (hd : c ≠ 34) (hs : c ≠ 39) (hw : Bare w) : Bare (c :: w) := by
  intro d hdm
  rcases List.mem_cons.mp hdm with rfl | hdw
  · exact ⟨by simpa using hend, hd, hs⟩
  · exact hw d hdw

theorem Word.cons {quoted : Bool} (hend : ¬ endsWord c = true) (hd : c ≠ 34) (hs : c ≠ 39) (hw : Word w tok quoted) :
    Word (c :: w) (c :: tok) quoted := by
  cases hw with
  | bare hw => exact .bare (bare_cons hend hd hs hw)
  | dquoted hw body => exact .dquoted (bare_cons hend hd hs hw) body
  | squoted hw body => exact .squoted (bare_cons hend hd hs hw) body

theorem word_of_reader (h : word cs = some (tok, rest)) :
    ∃ w quoted rest', cs = w ++ rest' ∧ Word w tok quoted ∧ Separates quoted rest' ∧ rest = afterWord quoted rest' := by
  fun_induction word cs generalizing tok with
  | case1 =>
    cases h
    refine ⟨[], false, [], rfl, .bare (fun _ h => by cases h), fun _ _ h => ?_, rfl⟩
    cases h
  | case2 c cs hc =>
    cases h
    refine ⟨[], false, c :: rest, rfl, .bare (fun _ h => by cases h), fun d ds he => ?_, rfl⟩
    cases he
    exact hc
  | case3 cs hc =>
    obtain ⟨body, rfl, hb, hclosed⟩ := body_of_dquoted h
    refine ⟨34 :: (body ++ [34]), true, rest, by simp, ?_, separates_of_closed hclosed, rfl⟩
    exact .dquoted (w := []) (fun _ h => by cases h) hb
  | case4 cs hc hd =>
    obtain ⟨body, rfl, hb, hclosed⟩ := body_of_squoted h
    refine ⟨39 :: (body ++ [39]), true, rest, by simp, ?_, separates_of_closed hclosed, rfl⟩
    exact .squoted (w := []) (fun _ h => by cases h) hb
  | case5 c cs hend hd hs ih =>
    obtain ⟨tok', hr, rfl⟩ := consByte_some h
    obtain ⟨w, quoted, rest', rfl, hw, hsep, hrest⟩ := ih hr
    exact ⟨c :: w, quoted, rest', rfl, hw.cons hend hd hs, hsep, hrest⟩

end Reader

/-! ## Lines -/

section Lines

variable {c : UInt8} {cs bl rest : List UInt8} {toks : List (List UInt8)} {n : Nat}

theorem isspace_of_endsWord (h : endsWord c = true) : isspace c = true := by
  simp only [endsWord, decide_eq_true_eq] at h
  rcases h with rfl | rfl | rfl | rfl <;> decide

theorem Separates.isspace {quoted : Bool} (h : Separates quoted (c :: cs)) : isspace c = true := by
  have hc := h c cs rfl
  cases quoted with
  | true => exact hc
  | false => exact isspace_of_endsWord hc

/-- A blank more or less in front of a line makes no difference. -/
theorem line_cons_blank (hc : isspace c = true) : Line (c :: cs) toks ↔ Line cs toks := by
  have hmore : ∀ bl : List UInt8, (∀ d ∈ bl, isspace d = true) → ∀ d ∈ c :: bl, isspace d = true := by
    intro bl hbl d hd
    rcases List.mem_cons.mp hd with rfl | hd
    · exact hc
    · exact hbl d hd
  constructor
  · intro h
    generalize hcs : c :: cs = line at h
    cases h with
    | blank hbl =>
      subst hcs
      exact .blank fun d hd => hbl d (List.mem_cons_of_mem _ hd)
    | @word bl w tok rest quoted toks hbl hw hs hsep tail =>
      cases bl with
      | nil =>
        obtain ⟨d, ds, rfl, hd⟩ := hs
        rw [List.nil_append, List.cons_append] at hcs
        rw [(List.cons.inj hcs).1, hd] at hc
        cases hc
      | cons d bl =>
        rw [List.cons_append] at hcs
        obtain ⟨-, rfl⟩ := List.cons.inj hcs
        exact .word (fun d hd => hbl d (List.mem_cons_of_mem _ hd)) hw hs hsep tail
  · intro h
    cases h with
    | blank hbl => exact .blank (hmore cs hbl)
    | @word bl _ _ _ _ _ hbl hw hs hsep tail =>
      rw [← List.cons_append]
      exact .word (hmore bl hbl) hw hs hsep tail

theorem line_afterWord {quoted : Bool} (hsep : Separates quoted rest) :
    Line (afterWord quoted rest) toks ↔ Line rest toks := by
  cases quoted with
  | true => rfl
  | false =>
    cases rest with
    | nil => rfl
    | cons c cs => exact (line_cons_blank hsep.isspace).symm

theorem length_afterWord (quoted : Bool) (rest : List UInt8) : (afterWord quoted rest).length ≤ rest.length := by
  cases quoted with
  | true => exact Nat.le_refl _
  | false =>
    show rest.tail.length ≤ _
    rw [List.length_tail]
    omega

theorem argsWithin_of_line (h : Line cs toks) (hn : cs.length < n) : argsWithin n cs = some toks := by
  induction n generalizing cs toks with
  | zero => omega
  | succ n ih =>
    unfold argsWithin
    cases h with
    | blank hbl => rw [List.dropWhile_eq_nil_iff.mpr hbl]
    | @word bl w tok rest quoted toks hbl hw hs hsep tail =>
      obtain ⟨c, w, rfl, hc⟩ := hs
      have hdrop : (bl ++ (c :: w ++ rest)).dropWhile isspace = c :: (w ++ rest) := by
        rw [List.dropWhile_append_of_pos hbl, List.cons_append, List.dropWhile_cons_of_neg (by rw [hc]; decide)]
      have hrest := length_afterWord quoted rest
      rw [List.length_append, List.length_append, List.length_cons] at hn
      rw [hdrop]
      show (word (c :: w ++ rest)).bind _ = _
      rw [word_of_word hw hsep, Option.bind_some]
      dsimp only
      rw [ih ((line_afterWord hsep).mpr tail) (by omega)]
      rfl

theorem line_of_argsWithin (h : argsWithin n cs = some toks) : Line cs toks := by
  induction n generalizing cs toks with
  | zero => cases h
  | succ n ih =>
    unfold argsWithin at h
    have hsplit := List.takeWhile_append_dropWhile (p := isspace) (l := cs)
    have hbl : ∀ c ∈ cs.takeWhile isspace, isspace c = true := fun c hc => List.mem_takeWhile_imp hc
    rw [← hsplit]
    cases hdrop : cs.dropWhile isspace with
    | nil =>
      rw [hdrop] at h
      cases h
      rw [List.append_nil]
      exact .blank hbl
    | cons c ds =>
      rw [hdrop] at h
      dsimp only at h
      obtain ⟨⟨tok, rest⟩, hw, h⟩ := Option.bind_eq_some_iff.mp h
      obtain ⟨toks', htail, rfl⟩ := Option.map_eq_some_iff.mp h
      obtain ⟨w, quoted, rest', hcs, hword, hsep, rfl⟩ := word_of_reader hw
      have hc : isspace c = false := by
        have hhead := List.head?_dropWhile_not isspace cs
        rw [hdrop] at hhead
        simpa using hhead
      rw [hcs]
      refine .word hbl hword ?_ hsep ((line_afterWord hsep).mp (ih htail))
      -- an empty word would start with a blank
      cases w with
      | nil =>
        rw [List.nil_append] at hcs
        subst hcs
        rw [hsep.isspace] at hc
        cases hc
      | cons d w =>
        obtain ⟨rfl, -⟩ := List.cons.inj hcs
        exact ⟨c, w, rfl, hc⟩

/-- A word takes at least one character, or the blank behind it. -/
theorem length_word {tok : List UInt8} (h : word (c :: cs) = some (tok, rest)) : rest.length ≤ cs.length := by
  obtain ⟨w, quoted, rest', hcs, hw, -, rfl⟩ := word_of_reader h
  have hlen := congrArg List.length hcs
  rw [List.length_cons, List.length_append] at hlen
  cases w with
  | nil =>
    -- only a bare word is empty
    generalize hnil : [] = w at hw
    cases hw with
    | bare hw =>
      show rest'.tail.length ≤ _
      rw [List.length_tail]
      rw [List.length_nil] at hlen
      omega
    | dquoted => simp at hnil
    | squoted => simp at hnil
  | cons d w =>
    have hle := length_afterWord quoted rest'
    rw [List.length_cons] at hlen
    omega

/-- Any bound that is large enough. -/
theorem argsWithin_eq (hn : cs.length < n) : argsWithin n cs = splitArgs cs := by
  refine Option.ext fun toks => ⟨fun h => ?_, fun h => ?_⟩
  · exact argsWithin_of_line (line_of_argsWithin h) (Nat.lt_succ_self _)
  · exact argsWithin_of_line (line_of_argsWithin h) hn

/-- **The reader accepts exactly the lines of the grammar**, and finds their arguments. -/
theorem splitArgs_iff : splitArgs cs = some toks ↔ Line cs toks :=
  ⟨line_of_argsWithin, fun h => argsWithin_of_line h (Nat.lt_succ_self _)⟩

end Lines

/-! ## Escaped forms -/

section Reprs

variable {c n : UInt8} {cs bs : List UInt8}

theorem hexByte_hex02 (c : UInt8) : hexByte (hexDigit (c / 16)) (hexDigit (c % 16)) = c := by
  obtain ⟨hdiv, hmod⟩ := digits_lt c
  have hdigit : ∀ n < 16, hex_digit_to_int (hexDigit n) = n := fun n hn =>
    forall_digit (P := fun n => hex_digit_to_int (hexDigit n) = n) (by decide) hn
  unfold hexByte
  rw [hdigit _ hdiv, hdigit _ hmod]
  refine UInt8.toNat_inj.mp ?_
  rw [UInt8.toNat_add, UInt8.toNat_mul, UInt8.toNat_div, UInt8.toNat_mod]
  have hc := c.toNat_lt
  show (c.toNat / 16 * 16 % 256 + c.toNat % 16) % 256 = c.toNat
  omega

theorem is_hex_digit_hexDigit (hn : n < 16) : is_hex_digit (hexDigit n) = true :=
  forall_digit (P := fun n => is_hex_digit (hexDigit n) = true) (by decide) hn

/-- The escaped form of a byte stands for the byte. -/
theorem DBody.escape (c : UInt8) (h : DBody cs bs) : DBody (escape c ++ cs) (c :: bs) := by
  have hesc : ∀ e : UInt8, e ≠ 120 → unescape e = c → DBody (92 :: e :: cs) (c :: bs) := by
    intro e he hu
    rw [← hu]
    exact .esc (fun _ _ _ hx => absurd hx he) h
  unfold Slice.escape
  split_ifs with hq hn hr ht ha hb hp
  · rcases hq with rfl | rfl
    · exact hesc 92 (by decide) (by decide)
    · exact hesc 34 (by decide) (by decide)
  · exact hesc 110 (by decide) (by rw [hn]; decide)
  · exact hesc 114 (by decide) (by rw [hr]; decide)
  · exact hesc 116 (by decide) (by rw [ht]; decide)
  · exact hesc 97 (by decide) (by rw [ha]; decide)
  · exact hesc 98 (by decide) (by rw [hb]; decide)
  · exact .char (fun h92 => hq (.inl h92)) (fun h34 => hq (.inr h34)) h
  · have hhex := DBody.hex (is_hex_digit_hexDigit (digits_lt c).1) (is_hex_digit_hexDigit (digits_lt c).2) h
    rw [hexByte_hex02] at hhex
    exact hhex

theorem word_reprText (bs : List UInt8) : Word (reprText bs) bs true := by
  have hbody : DBody (bs.flatMap Slice.escape) bs := by
    induction bs with
    | nil => exact .nil
    | cons c bs ih =>
      rw [List.flatMap_cons]
      exact ih.escape c
  exact .dquoted (w := []) (fun _ h => by cases h) hbody

/-- Escaped forms with blanks in front of them, and blanks at the end. -/
def reprLine (items : List (List UInt8 × List UInt8)) (last : List UInt8) : List UInt8 :=
  items.flatMap (fun it => it.1 ++ reprText it.2) ++ last

/-- **The escaped forms of any arguments** are a line with these arguments, when there are blanks between them. -/
theorem line_of_reprs {items : List (List UInt8 × List UInt8)} {last : List UInt8}
    (hbl : ∀ it ∈ items, ∀ c ∈ it.1, isspace c = true) (hlast : ∀ c ∈ last, isspace c = true)
    (hsep : ∀ it ∈ items.tail, it.1 ≠ []) : Line (reprLine items last) (items.map Prod.snd) := by
  induction items with
  | nil => exact .blank hlast
  | cons it items ih =>
    have htail : Line (reprLine items last) (items.map Prod.snd) :=
      ih (fun it h => hbl it (List.mem_cons_of_mem _ h)) fun it h => hsep it (List.mem_of_mem_tail h)
    have hline : reprLine (it :: items) last = it.1 ++ (reprText it.2 ++ reprLine items last) := by
      unfold reprLine
      rw [List.flatMap_cons, List.append_assoc, List.append_assoc]
    rw [hline]
    refine .word (hbl it List.mem_cons_self) (word_reprText it.2) ⟨34, _, rfl, by decide⟩ (fun c cs hc => ?_) htail
    -- what follows the closing quote is a blank
    cases items with
    | nil =>
      have hlst : last = c :: cs := hc
      exact hlast c (hlst ▸ List.mem_cons_self)
    | cons it' items =>
      obtain ⟨d, ds, hd⟩ := List.exists_cons_of_ne_nil (hsep it' List.mem_cons_self)
      have hblank := hbl it' (List.mem_cons_of_mem _ List.mem_cons_self) d (hd ▸ List.mem_cons_self)
      unfold reprLine at hc
      rw [List.flatMap_cons, hd, List.cons_append, List.cons_append, List.cons_append] at hc
      rw [← (List.cons.inj hc).1]
      exact hblank

theorem escape_ne_zero (c : UInt8) : 0 ∉ escape c := by
  unfold escape
  split_ifs with hq hn hr ht ha hb hp
  · rcases hq with rfl | rfl <;> decide
  · decide
  · decide
  · decide
  · decide
  · decide
  · intro h
    rw [← List.mem_singleton.mp h] at hp
    cases hp
  · simp only [List.cons_append, List.nil_append, List.mem_cons, not_or]
    exact ⟨by decide, by decide, hex02_ne_zero c⟩

/-- The escaped form is a C string, whatever the bytes are. -/
theorem reprText_ne_zero (bs : List UInt8) : 0 ∉ reprText bs := by
  simp only [reprText, List.mem_cons, List.mem_append, List.mem_flatMap, List.not_mem_nil, or_false, not_or,
    not_exists, not_and]
  exact ⟨by decide, fun c _ => escape_ne_zero c, by decide⟩

end Reprs

end BeanRaft.Slice
