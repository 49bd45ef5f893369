import BeanRaft.Slice.Printf
import Mathlib.Data.List.TakeWhile

/-!
# BeanRaft.Slice.Repr — the escaped form of a string

`sdscatrepr` of `sds.cpp` appends the bytes of a source between quotes, and writes those that do not print as escapes.
`reprText` is the text that a source stands for; `sdscatrepr_text`: the function appends it.

The function tests no result for NULL, so it is undefined when an allocation fails; here all of them succeed.
-/

namespace BeanRaft.Slice

open CInt Lib

/-! ## sdscatrepr -/

/-- A string literal. -/
def cstring (cs : List UInt8) : Src := .ext (cs.map some ++ [some 0])

/-- A call of `sdscatlen`; `s` of NULL is undefined. -/
def Space.sdscatlen (σ : Space) (s : Option Ptr) (t : Src) (len : Nat) : Option (Space × Option Ptr) :=
  s.bind fun s => (Slice.sdscatlen σ.mem s t len).map fun (m, s) => ({ σ with mem := m }, s)

def sdscatprintf (σ : Space) (s : Option Ptr) (fmt text : List UInt8) : Option (Space × Option Ptr) :=
  sdscatvprintf σ s (cstring fmt) text

/-- In the locale "C". -/
def isprint (c : UInt8) : Bool := 32 ≤ c ∧ c ≤ 126

/-- A digit of `%02x`. -/
def hexDigit (n : UInt8) : UInt8 := if n < 10 then 48 + n else 87 + n

/-- The text of `%02x`. -/
def hex02 (c : UInt8) : List UInt8 := [hexDigit (c / 16), hexDigit (c % 16)]

/-- The `switch` of `sdscatrepr`. -/
def reprChar (σ : Space) (s : Option Ptr) (c : UInt8) : Option (Space × Option Ptr) :=
  if c = 92 ∨ c = 34 then sdscatprintf σ s [92, 37, 99] [92, c] -- '\\', '"': "\\%c"
  else if c = 10 then σ.sdscatlen s (cstring [92, 110]) 2 -- '\n'
  else if c = 13 then σ.sdscatlen s (cstring [92, 114]) 2 -- '\r'
  else if c = 9 then σ.sdscatlen s (cstring [92, 116]) 2 -- '\t'
  else if c = 7 then σ.sdscatlen s (cstring [92, 97]) 2 -- '\a'
  else if c = 8 then σ.sdscatlen s (cstring [92, 98]) 2 -- '\b'
  else if isprint c then sdscatprintf σ s [37, 99] [c] -- "%c"
  else sdscatprintf σ s [92, 120, 37, 48, 50, 120] ([92, 120] ++ hex02 c) -- "\\x%02x"

/-- `while(len--)`, from the byte `off` of `p` on. -/
def reprLoop (p : Src) : Nat → Space → Option Ptr → Nat → Option (Space × Option Ptr)
  | 0, σ, s, _ => some (σ, s)
  | len + 1, σ, s, off =>
    (p.byte σ.mem off).bind fun c => (reprChar σ s c).bind fun (σ, s) => reprLoop p len σ s (off + 1)

/-- `sdscatrepr` (line 967) -/
def sdscatrepr (σ : Space) (s : Option Ptr) (p : Src) (len : Nat) : Option (Space × Option Ptr) :=
  (σ.sdscatlen s (cstring [34]) 1).bind fun (σ, s) =>
    (reprLoop p len σ s 0).bind fun (σ, s) => σ.sdscatlen s (cstring [34]) 1

/-! ## The text -/

/-- A byte between the quotes. -/
def escape (c : UInt8) : List UInt8 :=
  if c = 92 ∨ c = 34 then [92, c]
  else if c = 10 then [92, 110]
  else if c = 13 then [92, 114]
  else if c = 9 then [92, 116]
  else if c = 7 then [92, 97]
  else if c = 8 then [92, 98]
  else if isprint c then [c]
  else [92, 120] ++ hex02 c

def reprText (bs : List UInt8) : List UInt8 := 34 :: (bs.flatMap escape ++ [34])

example : reprText [97, 10, 34, 0] = [34, 97, 92, 110, 92, 34, 92, 120, 48, 48, 34] := by decide

/-- A property of the digits, tested on each of them. -/
theorem forall_digit {P : UInt8 → Prop} (h : ∀ i : Fin 16, P (UInt8.ofNat i)) {n : UInt8} (hn : n < 16) : P n := by
  have hlt : n.toNat < 16 := UInt8.lt_iff_toNat_lt.mp hn
  have hi := h ⟨n.toNat, hlt⟩
  rwa [UInt8.ofNat_toNat] at hi

theorem digits_lt (c : UInt8) : c / 16 < 16 ∧ c % 16 < 16 := by
  refine ⟨?_, ?_⟩
  · rw [UInt8.lt_iff_toNat_lt, UInt8.toNat_div]
    have hc := c.toNat_lt
    show c.toNat / 16 < 16
    omega
  · rw [UInt8.lt_iff_toNat_lt, UInt8.toNat_mod]
    exact Nat.mod_lt _ (by decide)

theorem hexDigit_ne_zero {n : UInt8} (hn : n < 16) : 0 ≠ hexDigit n :=
  forall_digit (P := fun n => 0 ≠ hexDigit n) (by decide) hn

theorem hex02_ne_zero (c : UInt8) : 0 ∉ hex02 c := by
  simp only [hex02, List.mem_cons, List.not_mem_nil, or_false, not_or]
  exact ⟨hexDigit_ne_zero (digits_lt c).1, hexDigit_ne_zero (digits_lt c).2⟩

/-! ## Sequences of appends -/

/-- All allocations succeed, and the arrays are as they were. -/
structure Keeps (σ σ' : Space) : Prop where
  fails : σ'.mem.fails = []
  bufs : σ'.bufs.get = σ.bufs.get
  vecs : σ'.vecs = σ.vecs

theorem Keeps.trans {σ σ1 σ2 : Space} (h1 : Keeps σ σ1) (h2 : Keeps σ1 σ2) : Keeps σ σ2 :=
  ⟨h2.fails, h2.bufs.trans h1.bufs, h2.vecs.trans h1.vecs⟩

/-- A step that appends `ds` to the string, wherever this is, in a memory where all allocations succeed. -/
def Adds (g : Nat → Option Sdshdr) (l : List (Ptr × List UInt8))
    (f : Space → Option Ptr → Option (Space × Option Ptr)) (ds : List UInt8) : Prop :=
  ∀ σ p cs, σ.mem.fails = [] → Texts g ((p, cs) :: l) σ.mem → Roomy cs.length ds.length →
    ∃ σ' q, f σ (some p) = some (σ', some q) ∧ Keeps σ σ' ∧ Texts g ((q, cs ++ ds) :: l) σ'.mem

/-- The source can be read beside any string that is appended to. -/
def Readable (g : Nat → Option Sdshdr) (l : List (Ptr × List UInt8)) (t : Src) (ds : List UInt8) : Prop :=
  ∀ p cs m, Texts g ((p, cs) :: l) m → t.inside p = false ∧ t.read m ds.length = some (ds.map some)

section Adds

variable {g : Nat → Option Sdshdr} {l : List (Ptr × List UInt8)} {t : Src} {cs ds es : List UInt8} {p q : Ptr}
  {m : Mem} {h : Sdshdr} {f k : Space → Option Ptr → Option (Space × Option Ptr)}

theorem Roomy.split {a b c : Nat} (h : Roomy a (b + c)) : Roomy a b ∧ Roomy (a + b) c := by
  unfold Roomy at *
  omega

/-- One append after the other. -/
theorem Adds.seq (hf : Adds g l f ds) (hk : Adds g l k es) :
    Adds g l (fun σ s => (f σ s).bind fun (σ, s) => k σ s) (ds ++ es) := by
  intro σ p cs hcalm ho hroomy
  rw [List.length_append] at hroomy
  obtain ⟨hroomy1, hroomy2⟩ := hroomy.split
  obtain ⟨σ1, q1, h1, hk1, ho1⟩ := hf σ p cs hcalm ho hroomy1
  rw [← List.length_append] at hroomy2
  obtain ⟨σ2, q2, h2, hk2, ho2⟩ := hk σ1 q1 (cs ++ ds) hk1.fails ho1 hroomy2
  rw [List.append_assoc] at ho2
  refine ⟨σ2, q2, ?_, hk1.trans hk2, ho2⟩
  dsimp only
  rw [h1]
  exact h2

theorem Adds.nil : Adds g l (fun σ s => some (σ, s)) [] := by
  intro σ p cs hcalm ho _
  exact ⟨σ, p, rfl, ⟨hcalm, rfl, rfl⟩, by rw [List.append_nil]; exact ho⟩

theorem Readable.ext (ds : List UInt8) (rest : List Byte) : Readable g l (.ext (ds.map some ++ rest)) ds :=
  fun _ _ m _ => ⟨rfl, ext_read ds rest m⟩

theorem readable_bytes (ds : List UInt8) : Readable g l (.ext (ds.map some)) ds := by
  have hext := Readable.ext (g := g) (l := l) ds []
  rwa [List.append_nil] at hext

/-- A string of the list. -/
theorem Readable.sds (hq : (q, ds) ∈ l) : Readable g l (.sds q 0) ds := by
  intro p cs m ho
  obtain ⟨hread, hin⟩ := Texts.read ho hq
  exact ⟨hin, hread⟩

/-- A string of the frame. -/
theorem Readable.frame (hq : g q = some h) (ht : Text h ds) : Readable g l (.sds q 0) ds := by
  intro p cs m ho
  refine ⟨decide_eq_false fun hqp => ?_, ?_⟩
  · have hfresh := Owns.fresh_of_mem ho List.mem_cons_self
    rw [← hqp, hq] at hfresh
    cases hfresh
  · unfold Src.read
    split_ifs with hzero
    · rw [List.length_eq_zero_iff.mp hzero]
      rfl
    · have hbytes : (Src.sds q 0).bytes m = some h.buf := by
        show (m.heap.get q).bind _ = _
        rw [Owns.frame ho hq]
        simp
      rw [hbytes]
      exact ht.read

/-- A byte of what can be read. -/
theorem byte_of_read {i : Nat} (hread : t.read m ds.length = some (ds.map some)) (hi : i < ds.length) :
    t.byte m i = some ds[i] := by
  unfold Src.read at hread
  rw [if_neg (Nat.ne_of_gt (Nat.zero_lt_of_lt hi))] at hread
  obtain ⟨bs, hbs, hr⟩ := Option.bind_eq_some_iff.mp hread
  obtain ⟨-, htake, -⟩ := read_some hr
  have hget : bs[i]? = some (some ds[i]) := by
    rw [List.drop_zero] at htake
    rw [← List.getElem?_take_of_lt hi, ← htake, List.getElem?_map, List.getElem?_eq_getElem hi]
    rfl
  unfold Src.byte
  rw [hbs, Option.bind_some, hget]
  rfl

theorem adds_sdscatlen (ht : Readable g l t ds) : Adds g l (fun σ s => σ.sdscatlen s t ds.length) ds := by
  intro σ p cs hcalm ho hroomy
  obtain ⟨hin, hread⟩ := ht p cs σ.mem ho
  obtain ⟨m', q, hcat, hf', ho'⟩ := (sdscatlen_text ho hin hread hroomy).calm hcalm
  refine ⟨{ σ with mem := m' }, q, ?_, ⟨hf', rfl, rfl⟩, ho'⟩
  show (Slice.sdscatlen σ.mem p t ds.length).map _ = _
  rw [hcat]
  rfl

theorem adds_sdscatprintf {fmt text : List UInt8} (h0 : 0 ∉ fmt) (ht0 : 0 ∉ text) (hfmt : fmt.length < 2 ^ 30)
    (htext : text.length + 1 < 2 ^ 30) : Adds g l (fun σ s => sdscatprintf σ s fmt text) text := by
  intro σ p cs hcalm ho hroomy
  have hcstr : cstr text = text := by
    refine List.takeWhile_eq_self_iff.mpr fun c hc => ?_
    have hne : c ≠ 0 := fun h => ht0 (h ▸ hc)
    simpa using hne
  have hlen : (cstring fmt).strlen σ.mem = some fmt.length := strlenOf_text h0 []
  obtain ⟨σ', hb, hv, hf', ⟨-, -, htrue⟩ | ⟨q, hr, ho'⟩⟩ := sdscatvprintf_grants hcstr ho hlen hfmt htext hroomy
  · rw [hcalm] at htrue
    cases htrue
  · rw [hcalm] at hf'
    exact ⟨σ', q, hr, ⟨List.suffix_nil.mp hf', hb, hv⟩, ho'⟩

/-- A byte is appended in its escaped form. -/
theorem adds_reprChar (c : UInt8) : Adds g l (fun σ s => reprChar σ s c) (escape c) := by
  have hlit : ∀ c1 c2 : UInt8, Adds g l (fun σ s => σ.sdscatlen s (cstring [c1, c2]) 2) [c1, c2] :=
    fun c1 c2 => adds_sdscatlen (.ext [c1, c2] [some 0])
  have hprint : isprint c = true → 0 ∉ [c] := by
    intro hp hmem
    rw [← List.mem_singleton.mp hmem] at hp
    cases hp
  unfold reprChar escape
  split_ifs with hq hn hr ht ha hb hp
  · refine adds_sdscatprintf (by decide) ?_ (by decide) (by simp)
    rcases hq with rfl | rfl <;> decide
  · exact hlit 92 110
  · exact hlit 92 114
  · exact hlit 92 116
  · exact hlit 92 97
  · exact hlit 92 98
  · exact adds_sdscatprintf (by decide) (hprint hp) (by decide) (by simp)
  · refine adds_sdscatprintf (by decide) ?_ (by decide) (by simp [hex02])
    simp only [List.cons_append, List.nil_append, List.mem_cons, not_or]
    exact ⟨by decide, by decide, hex02_ne_zero c⟩

/-- By induction on the bytes that are left. -/
theorem adds_reprLoop (ht : Readable g l t ds) (off : Nat) (hoff : off ≤ ds.length) :
    Adds g l (fun σ s => reprLoop t (ds.length - off) σ s off) ((ds.drop off).flatMap escape) := by
  induction hk : ds.length - off generalizing off with
  | zero =>
    have hall : ds.drop off = [] := List.drop_eq_nil_of_le (by omega)
    rw [hall]
    exact .nil
  | succ k ih =>
    have hlt : off < ds.length := by omega
    have hseq := (adds_reprChar (g := g) (l := l) ds[off]).seq (ih (off + 1) hlt (by omega))
    intro σ p cs hcalm ho hroomy
    have hbyte := byte_of_read (ht p cs σ.mem ho).2 hlt
    rw [List.drop_eq_getElem_cons hlt, List.flatMap_cons] at hroomy ⊢
    obtain ⟨σ', q, hr, hrest⟩ := hseq σ p cs hcalm ho hroomy
    refine ⟨σ', q, ?_, hrest⟩
    show (t.byte σ.mem off).bind _ = _
    rw [hbyte]
    exact hr

/-- **sdscatrepr** appends the escaped form of its source. -/
theorem sdscatrepr_text (ht : Readable g l t ds) :
    Adds g l (fun σ s => sdscatrepr σ s t ds.length) (reprText ds) := by
  have hquote : Adds g l (fun σ s => σ.sdscatlen s (cstring [34]) 1) [34] := adds_sdscatlen (.ext [34] [some 0])
  exact hquote.seq ((adds_reprLoop ht 0 (Nat.zero_le _)).seq hquote)

end Adds

end BeanRaft.Slice
