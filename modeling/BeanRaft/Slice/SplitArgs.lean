import BeanRaft.Slice.Args
import BeanRaft.Slice.Vectors

/-!
# BeanRaft.Slice.SplitArgs — sdssplitargs in memory

The loops of `sdssplitargs` over a line: it reads the line byte by byte and ahead of itself, makes a string for each
argument and an array of them that it enlarges each time; in front of an error it frees what it made.

* `tokenLoop_ends`: the loop over one argument is the reader `word`, `dquoted` or `squoted` of `Args`.
* `sdssplitargs_args`: the function returns the arguments of the line; or NULL, exactly for a line outside the grammar,
  and nothing is left of what it allocated.  It reads nothing behind the line's null term.

The results of `sdsempty`, `sdscatlen` and `s_realloc` are not tested for NULL, so that all allocations succeed here.
-/

namespace BeanRaft.Slice

open CInt Lib

/-! ## sdssplitargs -/

/-- `while(*p && isspace(*p)) p++;` -/
def skipBlanks (line : Src) (m : Mem) : Nat → Nat → Option Nat
  | 0, _ => none
  | fuel + 1, p =>
    (line.byte m p).bind fun c => if c ≠ 0 ∧ isspace c = true then skipBlanks line m fuel (p + 1) else some p

/-- `*p == '\\' && *(p+1) == 'x' && is_hex_digit(*(p+2)) && is_hex_digit(*(p+3))`: a byte is read when those before it
fit. -/
def isHexEscape (line : Src) (m : Mem) (p : Nat) : Option Bool :=
  (line.byte m p).bind fun c =>
    if c = 92 then
      (line.byte m (p + 1)).bind fun x =>
        if x = 120 then
          (line.byte m (p + 2)).bind fun h1 =>
            if is_hex_digit h1 then (line.byte m (p + 3)).map is_hex_digit else some false
        else some false
    else some false

/-- `*p == '\\' && test(*(p+1))` -/
def isEscape (line : Src) (m : Mem) (p : Nat) (test : UInt8 → Bool) : Option Bool :=
  (line.byte m p).bind fun c => if c = 92 then (line.byte m (p + 1)).map test else some false

/-- `if (*p) p++;` -/
def advance (line : Src) (m : Mem) (p : Nat) : Option Nat :=
  (line.byte m p).map fun c => if c ≠ 0 then p + 1 else p

/-- How the loop over an argument ends: `goto err`, or `done` with `p` behind it. -/
inductive TokenEnd
  | err (current : Option Ptr)
  | done (current : Option Ptr) (p : Nat)

/-- `current = sdscatlen(current,t,1);`, and the end of the turn. -/
def putToken (line : Src) (σ : Space) (current : Option Ptr) (t : Src) (p : Nat)
    (k : Space → Option Ptr → Nat → Option (Space × TokenEnd)) : Option (Space × TokenEnd) :=
  (σ.sdscatlen current t 1).bind fun (σ, current) => (advance line σ.mem p).bind fun p => k σ current p

/-- A closing quote must be followed by a space or nothing at all. -/
def closeToken (line : Src) (σ : Space) (current : Option Ptr) (p : Nat) : Option (Space × TokenEnd) :=
  (line.byte σ.mem (p + 1)).bind fun c =>
    if c ≠ 0 ∧ isspace c = false then some (σ, .err current)
    else (advance line σ.mem p).map fun p => (σ, .done current p)

/-- `while(!done)`: `inq` in double quotes, `insq` in single ones. -/
def tokenLoop (line : Src) : Nat → Space → Option Ptr → Nat → Bool → Bool → Option (Space × TokenEnd)
  | 0, _, _, _, _, _ => none
  | fuel + 1, σ, current, p, inq, insq =>
    (line.byte σ.mem p).bind fun c =>
      if inq then
        (isHexEscape line σ.mem p).bind fun hex =>
          if hex then
            (line.byte σ.mem (p + 2)).bind fun h1 => (line.byte σ.mem (p + 3)).bind fun h2 =>
              putToken line σ current (.ext [some (hexByte h1 h2)]) (p + 3) fun σ current p =>
                tokenLoop line fuel σ current p inq insq
          else
            (isEscape line σ.mem p (· ≠ 0)).bind fun esc =>
              if esc then
                (line.byte σ.mem (p + 1)).bind fun e =>
                  putToken line σ current (.ext [some (unescape e)]) (p + 1) fun σ current p =>
                    tokenLoop line fuel σ current p inq insq
              else if c = 34 then closeToken line σ current p
              else if c = 0 then some (σ, .err current) -- unterminated quotes
              else
                putToken line σ current (line.add p) p fun σ current p => tokenLoop line fuel σ current p inq insq
      else if insq then
        (isEscape line σ.mem p (· = 39)).bind fun esc =>
          if esc then
            putToken line σ current (cstring [39]) (p + 1) fun σ current p => tokenLoop line fuel σ current p inq insq
          else if c = 39 then closeToken line σ current p
          else if c = 0 then some (σ, .err current)
          else putToken line σ current (line.add p) p fun σ current p => tokenLoop line fuel σ current p inq insq
      else if endsWord c ∨ c = 0 then (advance line σ.mem p).map fun p => (σ, .done current p)
      else if c = 34 then (advance line σ.mem p).bind fun p => tokenLoop line fuel σ current p true insq
      else if c = 39 then (advance line σ.mem p).bind fun p => tokenLoop line fuel σ current p inq true
      else putToken line σ current (line.add p) p fun σ current p => tokenLoop line fuel σ current p inq insq

/-- `while(1)`: `vector` holds the first `argc` arguments, and `current` is NULL.  The count is an `int`.  The loops take
no more turns than the line has bytes. -/
def argsLoop (line : Src) (size : Nat) : Nat → Space → Option Ptr → Nat → Nat → Option (Space × Option Ptr × Nat)
  | 0, _, _, _, _ => none
  | fuel + 1, σ, vector, argc, p =>
    (skipBlanks line σ.mem (size + 1) p).bind fun p => (line.byte σ.mem p).bind fun c =>
      if c ≠ 0 then
        (sdsempty σ.mem).bind fun (m, current) =>
          (tokenLoop line (size + 1) { σ with mem := m } current p false false).bind fun
            | (σ, .err current) =>
              (freeTokens vector argc σ).bind fun σ => (σ.freeVec vector).bind fun σ =>
                (σ.sdsfree current).map fun σ => (σ, none, 0)
            | (σ, .done current p) =>
              if argc + 1 < 2 ^ 31 then
                (σ.reallocVec vector (argc + 1)).bind fun (σ, vector) => vector.bind fun v =>
                  (σ.storeVec v argc current).bind fun σ => argsLoop line size fuel σ (some v) (argc + 1) p
              else none
      else if vector = none then (σ.reallocVec none 1).map fun (σ, vector) => (σ, vector, argc)
      else some (σ, vector, argc)

/-- `sdssplitargs` (line 1042): the array and `*argc`. -/
def sdssplitargs (σ : Space) (line : Src) : Option (Space × Option Ptr × Nat) :=
  (line.bytes σ.mem).bind fun bs => argsLoop line bs.length (bs.length + 1) σ none 0 0

/-! ## The line -/

/-- The line is a C string with the characters `fs`, in the frame or outside of the heap. -/
structure CLine (g : Nat → Option Sdshdr) (line : Src) (fs : List UInt8) : Prop where
  nonzero : 0 ∉ fs
  fixed : Fixed g line (fs ++ [0])

section Line

variable {g : Nat → Option Sdshdr} {line : Src} {fs rest : List UInt8} {l : List (Ptr × List UInt8)} {m : Mem}
  {p q k : Nat} {c : UInt8} {h : Sdshdr}

theorem CLine.ext (h0 : 0 ∉ fs) (rest : List Byte) : CLine g (.ext (fs.map some ++ some 0 :: rest)) fs := by
  have hfixed := Fixed.ext (g := g) (fs ++ [0]) rest
  rw [List.map_append, List.append_assoc] at hfixed
  exact ⟨h0, hfixed⟩

/-- The text of a string of the frame. -/
theorem CLine.sds (hq : g q = some h) (ht : Text h fs) (h0 : 0 ∉ fs) : CLine g (.sds q 0) fs := ⟨h0, .sds hq ht⟩

/-- The characters from `p` on, and the null term behind them. -/
theorem CLine.byte (hl : CLine g line fs) (ho : Texts g l m) (hp : p ≤ fs.length) (hrest : fs.drop p = rest)
    (hk : k ≤ rest.length) : line.byte m (p + k) = some (rest[k]?.getD 0) := by
  have hlen : rest.length = fs.length - p := by rw [← hrest, List.length_drop]
  have hget : rest[k]? = fs[p + k]? := by rw [← hrest, List.getElem?_drop]
  rw [hl.fixed.byte ho (by rw [List.length_append, List.length_singleton]; omega), hget]
  by_cases hlt : p + k < fs.length
  · rw [List.getElem_append_left hlt, List.getElem?_eq_getElem hlt]
    rfl
  · have heq : p + k = fs.length := by omega
    rw [List.getElem?_eq_none (by omega)]
    simp [heq]

/-- One character of the line as a source. -/
theorem CLine.readable (hl : CLine g line fs) (hp : p ≤ fs.length) (hrest : fs.drop p = c :: rest) :
    Readable g l (line.add p) [c] := by
  have hple : p ≤ (fs ++ [0]).length := by
    rw [List.length_append]
    omega
  have hfixed := (hl.fixed.drop hple).take 1
  rw [List.drop_append_of_le_length hp, hrest] at hfixed
  exact hfixed.readable

theorem drop_cons (hrest : fs.drop p = c :: rest) : p + 1 ≤ fs.length ∧ fs.drop (p + 1) = rest ∧ c ∈ fs := by
  have hlt : p < fs.length := by
    by_contra hle
    rw [List.drop_eq_nil_of_le (Nat.le_of_not_lt hle)] at hrest
    cases hrest
  refine ⟨hlt, ?_, List.mem_of_mem_drop (i := p) (by rw [hrest]; exact List.mem_cons_self)⟩
  rw [← List.drop_drop, hrest]
  rfl

/-- The byte that the loop is at. -/
theorem CLine.head (hl : CLine g line fs) (ho : Texts g l m) (hp : p ≤ fs.length) (hrest : fs.drop p = rest) :
    line.byte m p = some (rest.head?.getD 0) := by
  have hbyte := hl.byte ho hp hrest (Nat.zero_le _)
  rw [List.head?_eq_getElem?]
  exact hbyte

theorem advance_eq (hl : CLine g line fs) (ho : Texts g l m) (hrest : fs.drop p = c :: rest) :
    advance line m p = some (p + 1) := by
  obtain ⟨hp, -, hmem⟩ := drop_cons hrest
  have hc : c ≠ 0 := fun h => hl.nonzero (h ▸ hmem)
  unfold advance
  rw [hl.head ho (Nat.le_of_succ_le hp) hrest]
  simp [hc]

theorem isHexEscape_eq (hl : CLine g line fs) (ho : Texts g l m) (hp : p ≤ fs.length) (hrest : fs.drop p = rest) :
    isHexEscape line m p = some (hexEscape rest) := by
  have hbyte : ∀ k ≤ rest.length, line.byte m (p + k) = some (rest[k]?.getD 0) :=
    fun k hk => hl.byte ho hp hrest hk
  unfold isHexEscape
  rw [hl.head ho hp hrest, Option.bind_some]
  rcases rest with _ | ⟨c, _ | ⟨x, _ | ⟨h1, rest⟩⟩⟩
  · rfl
  · rw [hbyte 1 (by simp)]
    by_cases hc : c = 92 <;> simp [hc, hexEscape]
  · rw [hbyte 1 (by simp), hbyte 2 (by simp)]
    by_cases hc : c = 92 <;> by_cases hx : x = 120 <;> simp [hc, hx, hexEscape, is_hex_digit]
  · rw [hbyte 1 (by simp), hbyte 2 (by simp), hbyte 3 (by simp)]
    cases rest with
    | nil => by_cases hc : c = 92 <;> by_cases hx : x = 120 <;> simp [hc, hx, hexEscape, is_hex_digit]
    | cons h2 rest =>
      by_cases hc : c = 92 <;> by_cases hx : x = 120 <;> by_cases hh : is_hex_digit h1 = true <;>
        simp [hc, hx, hh, hexEscape]

theorem isEscape_eq (hl : CLine g line fs) (ho : Texts g l m) (hrest : fs.drop p = c :: rest) (test : UInt8 → Bool) :
    isEscape line m p test = some (decide (c = 92) && test (rest.head?.getD 0)) := by
  obtain ⟨hp, hdrop, -⟩ := drop_cons hrest
  unfold isEscape
  rw [hl.head ho (Nat.le_of_succ_le hp) hrest, hl.head ho hp hdrop]
  by_cases hc : c = 92 <;> simp [hc]

end Line

/-! ## One argument -/

/-- The loop does what the reader says: it ends behind the argument, whose bytes have been appended to `cs`, or at an
error. -/
def TokenEnds (g : Nat → Option Sdshdr) (l : List (Ptr × List UInt8)) (fs : List UInt8) (σ : Space) (cs : List UInt8)
    (r : Option (Space × TokenEnd)) : Option (List UInt8 × List UInt8) → Prop
  | some (tok, rest) => ∃ σ' q p, r = some (σ', .done (some q) p) ∧ p ≤ fs.length ∧ fs.drop p = rest ∧ Keeps σ σ' ∧
      Texts g ((q, cs ++ tok) :: l) σ'.mem
  | none => ∃ σ' q bs, r = some (σ', .err (some q)) ∧ Keeps σ σ' ∧ Texts g ((q, bs) :: l) σ'.mem

section Token

variable {g : Nat → Option Sdshdr} {line t : Src} {fs cs rest : List UInt8} {l : List (Ptr × List UInt8)} {σ : Space}
  {s p fuel : Nat} {b c : UInt8}

theorem TokenEnds.cons {σ1 : Space} {r : Option (Space × TokenEnd)} {spec : Option (List UInt8 × List UInt8)}
    (h : TokenEnds g l fs σ1 (cs ++ [b]) r spec) (hk : Keeps σ σ1) : TokenEnds g l fs σ cs r (consByte b spec) := by
  cases spec with
  | none =>
    obtain ⟨σ', q, bs, hr, hkeeps, ho⟩ := h
    exact ⟨σ', q, bs, hr, hk.trans hkeeps, ho⟩
  | some x =>
    obtain ⟨tok, rest⟩ := x
    obtain ⟨σ', q, p, hr, hp, hdrop, hkeeps, ho⟩ := h
    rw [List.append_assoc] at ho
    exact ⟨σ', q, p, hr, hp, hdrop, hk.trans hkeeps, ho⟩

theorem putToken_ends {k : Space → Option Ptr → Nat → Option (Space × TokenEnd)}
    {spec : Option (List UInt8 × List UInt8)} (hl : CLine g line fs) (ht : Readable g l t [b])
    (hcalm : σ.mem.fails = []) (ho : Texts g ((s, cs) :: l) σ.mem) (hrest : fs.drop p = c :: rest)
    (hroomy : Roomy cs.length 1)
    (hk : ∀ σ1 q, σ1.mem.fails = [] → Texts g ((q, cs ++ [b]) :: l) σ1.mem →
      TokenEnds g l fs σ1 (cs ++ [b]) (k σ1 (some q) (p + 1)) spec) :
    TokenEnds g l fs σ cs (putToken line σ (some s) t p k) (consByte b spec) := by
  obtain ⟨σ1, q, hcat, hkeeps, ho1⟩ := adds_sdscatlen ht σ s cs hcalm ho hroomy
  have hcat' : σ.sdscatlen (some s) t 1 = some (σ1, some q) := hcat
  have hput : putToken line σ (some s) t p k = k σ1 (some q) (p + 1) := by
    unfold putToken
    rw [hcat', Option.bind_some]
    dsimp only
    rw [advance_eq hl ho1 hrest, Option.bind_some]
  rw [hput]
  exact (hk σ1 q hkeeps.fails ho1).cons hkeeps

theorem closeToken_ends (hl : CLine g line fs) (hcalm : σ.mem.fails = []) (ho : Texts g ((s, cs) :: l) σ.mem)
    (hrest : fs.drop p = c :: rest) : TokenEnds g l fs σ cs (closeToken line σ (some s) p)
      (if closed rest then some ([], rest) else none) := by
  obtain ⟨hp, hdrop, -⟩ := drop_cons hrest
  have hkeeps : Keeps σ σ := ⟨hcalm, rfl, rfl⟩
  have hclose : closeToken line σ (some s) p =
      if closed rest then some (σ, .done (some s) (p + 1)) else some (σ, .err (some s)) := by
    unfold closeToken
    rw [hl.head ho hp hdrop, advance_eq hl ho hrest, Option.bind_some]
    cases rest with
    | nil => rfl
    | cons d ds =>
      have hd : d ≠ 0 := fun h => hl.nonzero (h ▸ (drop_cons hdrop).2.2)
      cases hsp : isspace d <;> simp [closed, hd, hsp]
  rw [hclose]
  split_ifs with hc
  · exact ⟨σ, s, p + 1, rfl, hp, hdrop, hkeeps, by rw [List.append_nil]; exact ho⟩
  · exact ⟨σ, s, cs, rfl, hkeeps, ho⟩

/-- No string of a line whose length is an `int` needs a size that wraps. -/
theorem roomy_of_int {n : Nat} (hint : n < 2 ^ 31) : Roomy 0 n := by
  unfold Roomy SDS_MAX_PREALLOC
  omega

/-- There is room for one more byte: no more have been appended than were read. -/
theorem roomy_of_read (hroomy : Roomy 0 fs.length) (hlen : cs.length ≤ p) (hp : p < fs.length) : Roomy cs.length 1 := by
  unfold Roomy at *
  omega

/-- In double quotes, by induction on the turns that are left. -/
theorem tokenLoop_dquoted (hl : CLine g line fs) (hcalm : σ.mem.fails = []) (ho : Texts g ((s, cs) :: l) σ.mem)
    (hp : p ≤ fs.length) (hlen : cs.length ≤ p) (hroomy : Roomy 0 fs.length) (hfuel : fs.length < p + fuel) :
    TokenEnds g l fs σ cs (tokenLoop line fuel σ (some s) p true false) (dquoted (fs.drop p)) := by
  induction fuel generalizing σ s cs p with
  | zero => omega
  | succ fuel ih =>
    have hkeeps : Keeps σ σ := ⟨hcalm, rfl, rfl⟩
    unfold tokenLoop
    rw [hl.head ho hp rfl, isHexEscape_eq hl ho hp rfl, Option.bind_some, if_pos rfl, Option.bind_some]
    cases hrest : fs.drop p with
    | nil =>
      -- the null term: unterminated quotes
      have hesc : isEscape line σ.mem p (fun c => decide (c ≠ 0)) = some false := by
        unfold isEscape
        rw [hl.head ho hp hrest]
        rfl
      rw [show hexEscape [] = false from rfl, if_neg (by decide), hesc, Option.bind_some, if_neg (by decide),
        if_neg (by decide), if_pos (by rfl)]
      exact ⟨σ, s, cs, rfl, hkeeps, ho⟩
    | cons c rest =>
      obtain ⟨hlt, hdrop, hmem⟩ := drop_cons hrest
      have hroom : Roomy cs.length 1 := roomy_of_read hroomy hlen hlt
      by_cases hhex : hexEscape (c :: rest) = true
      · -- `\xhh`
        rcases rest with _ | ⟨x, _ | ⟨h1, _ | ⟨h2, rest⟩⟩⟩
        · cases hhex
        · cases hhex
        · cases hhex
        have hesc := hhex
        simp only [hexEscape, Bool.decide_and, Bool.and_eq_true, decide_eq_true_eq] at hhex
        obtain ⟨rfl, rfl, -, -⟩ := hhex
        obtain ⟨hlt1, hdrop1, -⟩ := drop_cons hdrop
        obtain ⟨hlt2, hdrop2, -⟩ := drop_cons hdrop1
        obtain ⟨hlt3, hdrop3, -⟩ := drop_cons hdrop2
        rw [hesc, if_pos rfl, hl.head ho hlt1 hdrop1, hl.head ho hlt2 hdrop2, Option.bind_some, Option.bind_some,
          dquoted_hex hesc]
        refine putToken_ends hl (.ext [hexByte h1 h2] []) hcalm ho hdrop2 hroom fun σ1 q hcalm1 ho1 => ?_
        rw [← hdrop3]
        refine ih hcalm1 ho1 hlt3 ?_ (by omega)
        rw [List.length_append, List.length_singleton]
        omega
      · have hno : hexEscape (c :: rest) = false := by simpa using hhex
        rw [hno, if_neg (by decide), isEscape_eq hl ho hrest, Option.bind_some]
        by_cases hesc : c = 92 ∧ rest ≠ []
        · -- a backslash and another character
          obtain ⟨rfl, hne⟩ := hesc
          obtain ⟨e, rest, rfl⟩ := List.exists_cons_of_ne_nil hne
          obtain ⟨hlt1, hdrop1, hmem1⟩ := drop_cons hdrop
          have he : e ≠ 0 := fun h => hl.nonzero (h ▸ hmem1)
          rw [if_pos (by simp [he]), hl.head ho hlt hdrop, Option.bind_some, dquoted_esc hno]
          refine putToken_ends hl (.ext [unescape e] []) hcalm ho hdrop hroom fun σ1 q hcalm1 ho1 => ?_
          rw [← hdrop1]
          refine ih hcalm1 ho1 hlt1 ?_ (by omega)
          rw [List.length_append, List.length_singleton]
          omega
        · have hfalse : ¬ (decide (c = 92) && decide (rest.head?.getD 0 ≠ 0)) = true := by
            intro h
            rw [Bool.and_eq_true, decide_eq_true_eq, decide_eq_true_eq] at h
            refine hesc ⟨h.1, fun hnil => h.2 ?_⟩
            rw [hnil]
            rfl
          rw [if_neg hfalse, dquoted_char hno hesc]
          have hc0 : c ≠ 0 := fun h => hl.nonzero (h ▸ hmem)
          show TokenEnds g l fs σ cs (if c = 34 then _ else _) _
          by_cases hq : c = 34
          · rw [if_pos hq, if_pos hq]
            exact closeToken_ends hl hcalm ho hrest
          · rw [if_neg hq, if_neg hq]
            show TokenEnds g l fs σ cs (if c = 0 then _ else _) _
            rw [if_neg hc0]
            refine putToken_ends hl (hl.readable hp hrest) hcalm ho hrest hroom fun σ1 q hcalm1 ho1 => ?_
            rw [← hdrop]
            refine ih hcalm1 ho1 hlt ?_ (by omega)
            rw [List.length_append, List.length_singleton]
            omega

theorem tokenLoop_squoted (hl : CLine g line fs) (hcalm : σ.mem.fails = []) (ho : Texts g ((s, cs) :: l) σ.mem)
    (hp : p ≤ fs.length) (hlen : cs.length ≤ p) (hroomy : Roomy 0 fs.length) (hfuel : fs.length < p + fuel) :
    TokenEnds g l fs σ cs (tokenLoop line fuel σ (some s) p false true) (squoted (fs.drop p)) := by
  induction fuel generalizing σ s cs p with
  | zero => omega
  | succ fuel ih =>
    have hkeeps : Keeps σ σ := ⟨hcalm, rfl, rfl⟩
    unfold tokenLoop
    rw [hl.head ho hp rfl, Option.bind_some, if_neg (by decide), if_pos rfl]
    cases hrest : fs.drop p with
    | nil =>
      have hesc : isEscape line σ.mem p (fun c => decide (c = 39)) = some false := by
        unfold isEscape
        rw [hl.head ho hp hrest]
        rfl
      rw [hesc, Option.bind_some, if_neg (by decide), if_neg (by decide), if_pos (by rfl)]
      exact ⟨σ, s, cs, rfl, hkeeps, ho⟩
    | cons c rest =>
      obtain ⟨hlt, hdrop, hmem⟩ := drop_cons hrest
      have hroom : Roomy cs.length 1 := roomy_of_read hroomy hlen hlt
      rw [isEscape_eq hl ho hrest, Option.bind_some]
      by_cases hesc : c = 92 ∧ rest.head? = some 39
      · -- the quote itself, behind a backslash
        obtain ⟨rfl, hhead⟩ := hesc
        obtain ⟨rest, rfl⟩ := List.head?_eq_some_iff.mp hhead
        obtain ⟨hlt1, hdrop1, -⟩ := drop_cons hdrop
        rw [if_pos (by rfl), squoted_esc]
        refine putToken_ends hl (.ext [39] [some 0]) hcalm ho hdrop hroom fun σ1 q hcalm1 ho1 => ?_
        rw [← hdrop1]
        refine ih hcalm1 ho1 hlt1 ?_ (by omega)
        rw [List.length_append, List.length_singleton]
        omega
      · have hfalse : ¬ (decide (c = 92) && decide (rest.head?.getD 0 = 39)) = true := by
          intro h
          rw [Bool.and_eq_true, decide_eq_true_eq, decide_eq_true_eq] at h
          refine hesc ⟨h.1, ?_⟩
          cases rest with
          | nil => exact absurd h.2 (by decide)
          | cons d ds => exact congrArg some h.2
        rw [if_neg hfalse, squoted_char hesc]
        have hc0 : c ≠ 0 := fun h => hl.nonzero (h ▸ hmem)
        show TokenEnds g l fs σ cs (if c = 39 then _ else _) _
        by_cases hq : c = 39
        · rw [if_pos hq, if_pos hq]
          exact closeToken_ends hl hcalm ho hrest
        · rw [if_neg hq, if_neg hq]
          show TokenEnds g l fs σ cs (if c = 0 then _ else _) _
          rw [if_neg hc0]
          refine putToken_ends hl (hl.readable hp hrest) hcalm ho hrest hroom fun σ1 q hcalm1 ho1 => ?_
          rw [← hdrop]
          refine ih hcalm1 ho1 hlt ?_ (by omega)
          rw [List.length_append, List.length_singleton]
          omega

/-- Outside of quotes; a quote goes on with one of the loops above. -/
theorem tokenLoop_ends (hl : CLine g line fs) (hcalm : σ.mem.fails = []) (ho : Texts g ((s, cs) :: l) σ.mem)
    (hp : p ≤ fs.length) (hlen : cs.length ≤ p) (hroomy : Roomy 0 fs.length) (hfuel : fs.length < p + fuel) :
    TokenEnds g l fs σ cs (tokenLoop line fuel σ (some s) p false false) (word (fs.drop p)) := by
  induction fuel generalizing σ s cs p with
  | zero => omega
  | succ fuel ih =>
    have hkeeps : Keeps σ σ := ⟨hcalm, rfl, rfl⟩
    unfold tokenLoop
    rw [hl.head ho hp rfl, Option.bind_some, if_neg (by decide), if_neg (by decide)]
    cases hrest : fs.drop p with
    | nil =>
      have hadv : advance line σ.mem p = some p := by
        unfold advance
        rw [hl.head ho hp hrest]
        rfl
      rw [if_pos (by right; rfl), hadv]
      exact ⟨σ, s, p, rfl, hp, hrest, hkeeps, by rw [List.append_nil]; exact ho⟩
    | cons c rest =>
      obtain ⟨hlt, hdrop, hmem⟩ := drop_cons hrest
      have hc0 : c ≠ 0 := fun h => hl.nonzero (h ▸ hmem)
      have hroom : Roomy cs.length 1 := roomy_of_read hroomy hlen hlt
      show TokenEnds g l fs σ cs (if endsWord c = true ∨ c = 0 then _ else if c = 34 then _ else if c = 39 then _ else _) _
      rw [word]
      by_cases hend : endsWord c = true
      · rw [if_pos (.inl hend), if_pos hend, advance_eq hl ho hrest]
        exact ⟨σ, s, p + 1, rfl, hlt, hdrop, hkeeps, by rw [List.append_nil]; exact ho⟩
      rw [if_neg (not_or.mpr ⟨hend, hc0⟩), if_neg hend]
      by_cases hd : c = 34
      · rw [if_pos hd, if_pos hd, advance_eq hl ho hrest, Option.bind_some, ← hdrop]
        exact tokenLoop_dquoted hl hcalm ho hlt (by omega) hroomy (by omega)
      rw [if_neg hd, if_neg hd]
      by_cases hs : c = 39
      · rw [if_pos hs, if_pos hs, advance_eq hl ho hrest, Option.bind_some, ← hdrop]
        exact tokenLoop_squoted hl hcalm ho hlt (by omega) hroomy (by omega)
      rw [if_neg hs, if_neg hs]
      refine putToken_ends hl (hl.readable hp hrest) hcalm ho hrest hroom fun σ1 q hcalm1 ho1 => ?_
      rw [← hdrop]
      refine ih hcalm1 ho1 hlt ?_ (by omega)
      rw [List.length_append, List.length_singleton]
      omega

end Token

/-! ## The line -/

/-- An array with the arguments `toks` behind those of `ts`; or NULL, and nothing is left beside the frame. -/
def ArgsEnd (g : Nat → Option Sdshdr) (gv : Nat → Option (List (Option Ptr))) (σ : Space)
    (ts : List (Ptr × List UInt8)) (r : Option (Space × Option Ptr × Nat)) : Option (List (List UInt8)) → Prop
  | some toks => ∃ σ' w ts' rest, r = some (σ', some w, ts'.length) ∧ ts'.map Prod.snd = ts.map Prod.snd ++ toks ∧
      Texts g ts' σ'.mem ∧ VecHolds gv σ' (tokenSlots ts' ++ rest) (some w) ∧ σ'.bufs.get = σ.bufs.get
  | none => ∃ σ', r = some (σ', none, 0) ∧ σ'.mem.heap.get = g ∧ σ'.vecs.get = gv ∧ σ'.bufs.get = σ.bufs.get

section Args

variable {g : Nat → Option Sdshdr} {gv : Nat → Option (List (Option Ptr))} {line : Src} {fs cs : List UInt8}
  {ts l : List (Ptr × List UInt8)} {σ σ1 : Space} {m : Mem} {vector : Option Ptr} {p fuel size : Nat}

theorem ArgsEnd.cons {t : Ptr × List UInt8} {r : Option (Space × Option Ptr × Nat)}
    {spec : Option (List (List UInt8))} (h : ArgsEnd g gv σ1 (ts ++ [t]) r spec) (hb : σ1.bufs.get = σ.bufs.get) :
    ArgsEnd g gv σ ts r (spec.map (t.2 :: ·)) := by
  cases spec with
  | none =>
    obtain ⟨σ', hr, hg, hv, hb'⟩ := h
    exact ⟨σ', hr, hg, hv, hb'.trans hb⟩
  | some toks =>
    obtain ⟨σ', w, ts', rest, hr, hts, ho, hv, hb'⟩ := h
    refine ⟨σ', w, ts', rest, hr, ?_, ho, hv, hb'.trans hb⟩
    rw [hts, List.map_append, List.append_assoc]
    rfl

theorem skipBlanks_eq (hl : CLine g line fs) (ho : Texts g l m) (hp : p ≤ fs.length) (hfuel : fs.length < p + fuel) :
    ∃ p', skipBlanks line m fuel p = some p' ∧ p ≤ p' ∧ p' ≤ fs.length ∧
      fs.drop p' = (fs.drop p).dropWhile isspace := by
  induction fuel generalizing p with
  | zero => omega
  | succ fuel ih =>
    unfold skipBlanks
    rw [hl.head ho hp rfl, Option.bind_some]
    cases hrest : fs.drop p with
    | nil => exact ⟨p, if_neg (fun h => h.1 rfl), Nat.le_refl _, hp, hrest⟩
    | cons c rest =>
      obtain ⟨hlt, hdrop, hmem⟩ := drop_cons hrest
      have hc0 : c ≠ 0 := fun h => hl.nonzero (h ▸ hmem)
      show ∃ p', (if c ≠ 0 ∧ isspace c = true then _ else _) = some p' ∧ _
      by_cases hsp : isspace c = true
      · obtain ⟨p', hskip, hle, hp', hdrop'⟩ := ih hlt (by omega)
        refine ⟨p', by rw [if_pos ⟨hc0, hsp⟩]; exact hskip, Nat.le_of_succ_le hle, hp', ?_⟩
        rw [hdrop', hdrop, List.dropWhile_cons_of_pos hsp]
      · refine ⟨p, if_neg (fun h => hsp h.2), Nat.le_refl _, hp, ?_⟩
        rw [hrest, List.dropWhile_cons_of_neg hsp]

/-- Everything that was made for a line is freed at an error. -/
theorem freeArgs {current : Ptr} (ho : Texts g ((current, cs) :: ts) σ.mem) (hv : VecHolds gv σ (tokenSlots ts) vector) :
    ∃ σ', ((freeTokens vector ts.length σ).bind fun σ => (σ.freeVec vector).bind fun σ =>
        (σ.sdsfree (some current)).map fun σ => (σ, (none : Option Ptr), 0)) = some (σ', none, 0) ∧
      σ'.mem.heap.get = g ∧ σ'.vecs.get = gv ∧ σ'.bufs = σ.bufs := by
  have hlast : Texts g (ts ++ [(current, cs)]) σ.mem := Owns.perm ho (List.perm_append_singleton _ _).symm
  rw [← List.append_nil (tokenSlots ts)] at hv
  obtain ⟨m1, hfree, -, ho1⟩ := freeTokens_texts hlast hv
  obtain ⟨σ2, hvec, hget, hm2, hb2⟩ := freeVec_some (hv.withMem m1)
  have ho2 : Texts g [(current, cs)] σ2.mem := by
    rw [hm2]
    exact ho1
  obtain ⟨m3, hcur, -, ho3⟩ := Space.sdsfree_texts ho2
  refine ⟨{ σ2 with mem := m3 }, ?_, Owns.nil_eq ho3, hget, hb2⟩
  rw [hfree, Option.bind_some, hvec, Option.bind_some, hcur]
  rfl

/-- By induction on the turns that are left; the strings of `ts` have been made, each of one character or more. -/
theorem argsLoop_ends (hl : CLine g line fs) (hint : fs.length < 2 ^ 31) (hsize : fs.length < size)
    (hcalm : σ.mem.fails = []) (ho : Texts g ts σ.mem) (hv : VecHolds gv σ (tokenSlots ts) vector)
    (hcount : ts.length ≤ p) (hp : p ≤ fs.length) (hfuel : fs.length < p + fuel) :
    ArgsEnd g gv σ ts (argsLoop line size fuel σ vector ts.length p) (argsWithin fuel (fs.drop p)) := by
  induction fuel generalizing σ ts vector p with
  | zero => omega
  | succ fuel ih =>
    obtain ⟨p1, hskip, hle1, hp1, hdrop1⟩ := skipBlanks_eq hl ho hp (show fs.length < p + (size + 1) by omega)
    unfold argsLoop argsWithin
    rw [hskip, Option.bind_some, hl.head ho hp1 hdrop1, Option.bind_some]
    cases hrest : (fs.drop p).dropWhile isspace with
    | nil =>
      -- the end of the line
      rw [if_neg (fun h => h rfl)]
      cases vector with
      | none =>
        obtain ⟨hslots, hvecs⟩ := hv
        obtain rfl : ts = [] := List.map_eq_nil_iff.mp hslots
        have hnone : VecHolds gv σ [] none := ⟨rfl, hvecs⟩
        obtain ⟨σ', hheap, -, hb, ⟨-, -, htrue⟩ | ⟨w, hreal, hw⟩⟩ := reallocVec_cases hnone (Nat.zero_le 1)
        · rw [hcalm] at htrue
          cases htrue
        · refine ⟨σ', w, [], _, ?_, rfl, ?_, hw, by rw [hb]⟩
          · rw [if_pos rfl, hreal]
            rfl
          · unfold Texts
            rw [hheap]
            exact ho
      | some w =>
        rw [if_neg (by simp)]
        exact ⟨σ, w, ts, [], rfl, by rw [List.append_nil], ho, by rw [List.append_nil]; exact hv, rfl⟩
    | cons c rest =>
      rw [hrest] at hdrop1
      obtain ⟨hlt1, -, hmem⟩ := drop_cons hdrop1
      have hc0 : c ≠ 0 := fun h => hl.nonzero (h ▸ hmem)
      rw [List.head?_cons, Option.getD_some, if_pos hc0]
      obtain ⟨m, q, hempty, hcalm1, ho1⟩ := (sdsempty_text ho).calm hcalm
      have htoken := tokenLoop_ends (σ := { σ with mem := m }) hl hcalm1 ho1 hp1 (Nat.zero_le _) (roomy_of_int hint)
        (show fs.length < p1 + (size + 1) by omega)
      rw [hempty, Option.bind_some]
      dsimp only
      rw [hdrop1] at htoken
      cases hword : word (c :: rest) with
      | none =>
        rw [hword] at htoken
        obtain ⟨σ2, q2, bs, htok, hkeeps, ho2⟩ := htoken
        obtain ⟨σ3, hfree, hget, hgetv, hb3⟩ := freeArgs ho2 (hv.congr hkeeps.vecs)
        refine ⟨σ3, ?_, hget, hgetv, ?_⟩
        · rw [htok]
          exact hfree
        · rw [hb3]
          exact hkeeps.bufs
      | some x =>
        obtain ⟨tok, rest2⟩ := x
        rw [hword] at htoken
        obtain ⟨σ2, q2, p2, htok, hp2, hdrop2, hkeeps, ho2⟩ := htoken
        rw [List.nil_append] at ho2
        have hslots : (tokenSlots ts).length ≤ ts.length + 1 := by
          rw [tokenSlots, List.length_map]
          exact Nat.le_succ _
        obtain ⟨σ3, hheap3, hfails3, hb3, ⟨-, -, htrue⟩ | ⟨w, hreal, hw⟩⟩ :=
          reallocVec_cases (hv.congr hkeeps.vecs) hslots
        · rw [hkeeps.fails] at htrue
          cases htrue
        -- the new element is behind the others
        have hnew : (tokenSlots ts).length = ts.length := List.length_map _
        rw [hnew, Nat.add_sub_cancel_left] at hw
        obtain ⟨σ4, hstore, hw4, hm4, hb4⟩ := storeVec_some (i := ts.length) hw (by simp [hnew]) (some q2)
        have hset : (tokenSlots ts ++ List.replicate 1 none).set ts.length (some q2) = tokenSlots (ts ++ [(q2, tok)]) := by
          rw [← hnew, List.set_append_right _ _ (Nat.le_refl _), Nat.sub_self]
          simp [tokenSlots]
        rw [hset] at hw4
        have ho4 : Texts g (ts ++ [(q2, tok)]) σ4.mem := by
          unfold Texts
          rw [hm4, hheap3]
          exact Owns.perm ho2 (List.perm_append_singleton _ _).symm
        have hcalm4 : σ4.mem.fails = [] := by
          rw [hkeeps.fails] at hfails3
          rw [hm4]
          exact List.suffix_nil.mp hfails3
        have hbufs : σ4.bufs.get = σ.bufs.get := by
          rw [hb4, hb3]
          exact hkeeps.bufs
        have hshort := length_word hword
        have hlen1 := congrArg List.length hdrop1
        have hlen2 := congrArg List.length hdrop2
        rw [List.length_drop, List.length_cons] at hlen1
        rw [List.length_drop] at hlen2
        have hcount4 : (ts ++ [(q2, tok)]).length ≤ p2 := by
          rw [List.length_append, List.length_singleton]
          omega
        have hnext := ih hcalm4 ho4 hw4 hcount4 hp2 (by omega)
        rw [hdrop2, List.length_append, List.length_singleton] at hnext
        have hcons := hnext.cons (t := (q2, tok)) hbufs
        rw [htok, Option.bind_some]
        dsimp only
        rw [if_pos (by omega), hreal, Option.bind_some]
        dsimp only
        rw [Option.bind_some, hstore, Option.bind_some]
        exact hcons

/-- The loop starts without an array, at the front of the line. -/
theorem sdssplitargs_ends (hl : CLine σ.mem.heap.get line fs) (hint : fs.length < 2 ^ 31) (hcalm : σ.mem.fails = []) :
    ArgsEnd σ.mem.heap.get σ.vecs.get σ [] (sdssplitargs σ line) (splitArgs fs) := by
  have ho : Texts σ.mem.heap.get [] σ.mem := .nil
  obtain ⟨rest, hbytes⟩ := hl.fixed.bytes
  have hsize : fs.length < ((fs ++ [0]).map some ++ rest).length := by
    rw [List.length_append, List.length_map, List.length_append, List.length_singleton]
    omega
  have hnull : VecHolds σ.vecs.get σ (tokenSlots []) none := ⟨rfl, rfl⟩
  have hends := argsLoop_ends hl hint hsize hcalm ho hnull (Nat.le_refl 0) (Nat.zero_le _)
    (show fs.length < 0 + (((fs ++ [0]).map some ++ rest).length + 1) by omega)
  rw [List.drop_zero, argsWithin_eq (by omega)] at hends
  unfold sdssplitargs
  rw [hbytes [] σ.mem ho, Option.bind_some]
  exact hends

/-- **sdssplitargs** returns an array with the arguments of the line, each in a string of its own; or NULL, exactly for
a line outside the grammar, and then nothing is left of what it allocated.  The line is short enough for its arguments to
be counted. -/
theorem sdssplitargs_args (hl : CLine σ.mem.heap.get line fs) (hint : fs.length < 2 ^ 31) (hcalm : σ.mem.fails = []) :
    (∃ toks σ' w ts rest, Line fs toks ∧ sdssplitargs σ line = some (σ', some w, toks.length) ∧
      ts.map Prod.snd = toks ∧ Texts σ.mem.heap.get ts σ'.mem ∧
      VecHolds σ.vecs.get σ' (tokenSlots ts ++ rest) (some w)) ∨
    ((¬ ∃ toks, Line fs toks) ∧ ∃ σ', sdssplitargs σ line = some (σ', none, 0) ∧
      σ'.mem.heap.get = σ.mem.heap.get ∧ σ'.vecs.get = σ.vecs.get) := by
  have hends := sdssplitargs_ends hl hint hcalm
  cases hsplit : splitArgs fs with
  | none =>
    rw [hsplit] at hends
    obtain ⟨σ', hr, hg, hv, -⟩ := hends
    refine .inr ⟨?_, σ', hr, hg, hv⟩
    rintro ⟨toks, hline⟩
    rw [splitArgs_iff.mpr hline] at hsplit
    cases hsplit
  | some toks =>
    rw [hsplit] at hends
    obtain ⟨σ', w, ts, rest, hr, hts, ho', hv, -⟩ := hends
    rw [List.map_nil, List.nil_append] at hts
    refine .inl ⟨toks, σ', w, ts, rest, splitArgs_iff.mp hsplit, ?_, hts, ho', hv⟩
    rw [← hts, List.length_map]
    exact hr

/-- A quotation mark that is not closed. -/
theorem sdssplitargs_args_open : (∃ toks σ' w ts rest, Line [97, 32, 34, 98] toks ∧
      sdssplitargs ⟨⟨⟨[]⟩, []⟩, ⟨[]⟩, ⟨[]⟩⟩ (.ext ([97, 32, 34, 98].map some ++ [some 0])) = some (σ', some w, toks.length) ∧
      ts.map Prod.snd = toks ∧ Texts (⟨[]⟩ : Heap Sdshdr).get ts σ'.mem ∧
      VecHolds (⟨[]⟩ : Heap (List (Option Ptr))).get σ' (tokenSlots ts ++ rest) (some w)) ∨
    ((¬ ∃ toks, Line [97, 32, 34, 98] toks) ∧
      ∃ σ', sdssplitargs ⟨⟨⟨[]⟩, []⟩, ⟨[]⟩, ⟨[]⟩⟩ (.ext ([97, 32, 34, 98].map some ++ [some 0])) = some (σ', none, 0) ∧
        σ'.mem.heap.get = (⟨[]⟩ : Heap Sdshdr).get ∧ σ'.vecs.get = (⟨[]⟩ : Heap (List (Option Ptr))).get) :=
  sdssplitargs_args (.ext (by decide) []) (by decide) rfl

end Args

/-! ## Escaped arguments -/

/-- A client that writes arguments as a line: blanks, and then the escaped form of each. -/
def catLine : List (List UInt8 × List UInt8) → Space → Option Ptr → Option (Space × Option Ptr)
  | [], σ, s => some (σ, s)
  | (bl, a) :: items, σ, s =>
    (σ.sdscatlen s (.ext (bl.map some)) bl.length).bind fun (σ, s) =>
      (sdscatrepr σ s (.ext (a.map some)) a.length).bind fun (σ, s) => catLine items σ s

section Escaped

variable {g : Nat → Option Sdshdr} {l : List (Ptr × List UInt8)} {σ : Space} {items : List (List UInt8 × List UInt8)}
  {bs fs : List UInt8}

theorem adds_catLine (items : List (List UInt8 × List UInt8)) : Adds g l (catLine items) (reprLine items []) := by
  induction items with
  | nil => exact .nil
  | cons it items ih =>
    obtain ⟨bl, a⟩ := it
    have hline : reprLine ((bl, a) :: items) [] = bl ++ (reprText a ++ reprLine items []) := by
      unfold reprLine
      rw [List.flatMap_cons, List.append_assoc, List.append_assoc]
    rw [hline]
    exact (adds_sdscatlen (readable_bytes bl)).seq ((sdscatrepr_text (readable_bytes a)).seq ih)

theorem reprLine_ne_zero (hbl : ∀ it ∈ items, ∀ c ∈ it.1, isspace c = true) : 0 ∉ reprLine items [] := by
  unfold reprLine
  rw [List.append_nil]
  intro hmem
  obtain ⟨it, hit, hmem⟩ := List.mem_flatMap.mp hmem
  rcases List.mem_append.mp hmem with h | h
  · exact absurd (hbl it hit 0 h) (by decide)
  · exact reprText_ne_zero it.2 h

/-- **What sdscatrepr writes, sdssplitargs reads back**: a line of escaped arguments, whatever bytes these hold, is read
as the same arguments. -/
theorem sdssplitargs_catLine (hcalm : σ.mem.fails = []) (hbl : ∀ it ∈ items, ∀ c ∈ it.1, isspace c = true)
    (hsep : ∀ it ∈ items.tail, it.1 ≠ []) (hint : (reprLine items []).length < 2 ^ 31) :
    ∃ m p σ1 q σ2 w ts rest, sdsempty σ.mem = some (m, some p) ∧
      catLine items { σ with mem := m } (some p) = some (σ1, some q) ∧
      sdssplitargs σ1 (.sds q 0) = some (σ2, some w, items.length) ∧ ts.map Prod.snd = items.map Prod.snd ∧
      Texts σ1.mem.heap.get ts σ2.mem ∧ VecHolds σ1.vecs.get σ2 (tokenSlots ts ++ rest) (some w) := by
  obtain ⟨m, p, hempty, hcalm1, ho1⟩ := (sdsempty_text (g := σ.mem.heap.get) .nil).calm hcalm
  obtain ⟨σ1, q, hcat, hkeeps, ho2⟩ := adds_catLine items { σ with mem := m } p [] hcalm1 ho1
    (roomy_of_int hint)
  rw [List.nil_append] at ho2
  obtain ⟨h, hq, htext, -⟩ := Owns.head ho2
  have hline : Line (reprLine items []) (items.map Prod.snd) := line_of_reprs hbl (fun _ h => by cases h) hsep
  have hcline : CLine σ1.mem.heap.get (.sds q 0) (reprLine items []) := .sds hq htext (reprLine_ne_zero hbl)
  have hends := sdssplitargs_ends hcline hint hkeeps.fails
  rw [splitArgs_iff.mpr hline] at hends
  obtain ⟨σ2, w, ts, rest, hrun, hts, ho, hv, -⟩ := hends
  rw [List.map_nil, List.nil_append] at hts
  have hlen : ts.length = items.length := by
    rw [← List.length_map Prod.snd, hts, List.length_map]
  rw [hlen] at hrun
  exact ⟨m, p, σ1, q, σ2, w, ts, rest, hempty, hcat, hrun, hts, ho, hv⟩

/-- An argument with a null byte and a quotation mark, and an empty one. -/
theorem sdssplitargs_catLine_two : ∃ m p σ1 q σ2 w ts rest, sdsempty ⟨⟨[]⟩, []⟩ = some (m, some p) ∧
    catLine [([], [97, 0, 34]), ([32], [])] ⟨m, ⟨[]⟩, ⟨[]⟩⟩ (some p) = some (σ1, some q) ∧
    sdssplitargs σ1 (.sds q 0) = some (σ2, some w, 2) ∧ ts.map Prod.snd = [[97, 0, 34], []] ∧
    Texts σ1.mem.heap.get ts σ2.mem ∧ VecHolds σ1.vecs.get σ2 (tokenSlots ts ++ rest) (some w) := by
  refine sdssplitargs_catLine (σ := ⟨⟨⟨[]⟩, []⟩, ⟨[]⟩, ⟨[]⟩⟩) rfl ?_ ?_ ?_
  · simp [isspace]
  · decide
  · decide

end Escaped

end BeanRaft.Slice
