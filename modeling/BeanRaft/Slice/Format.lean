import BeanRaft.Slice.Catlen

/-!
# BeanRaft.Slice.Format — appending by a format

`sdscatvfmt` of `sds.cpp`: its loop over the format, the directives `%s %S %i %I %u %U`, and what each writes.  The
format and the arguments are read from memory when the loop gets to them, so one that is in the string itself is seen
as it is then.

`sdscatvfmt_cases`: a call that returns leaves a sound and terminated string.  In between, the string has no null
term, and one whose size wrapped has no room for its last byte (`Writing`).
-/

namespace BeanRaft.Slice

open Lib

/-- A variadic argument. -/
inductive VaArg
  | str (t : Src)
  | int (v : Int32)
  | uint (v : UInt32)
  | longlong (v : Int64)
  | ulonglong (v : UInt64)
  deriving DecidableEq, Repr

/-- `sdslen` of a pointer to the first byte of a string. -/
def Src.sdslen (m : Mem) : Src → Option Nat
  | sds p 0 => (m.heap.get p).map Sdshdr.len
  | _ => none

/-- The initialised byte at an offset from the pointer. -/
def Src.byte (m : Mem) (t : Src) (f : Nat) : Option UInt8 := (t.bytes m).bind fun bs => bs[f]?.join

/-- The memory, the string, the place of the next byte and the arguments left. -/
structure FmtState where
  mem : Mem
  s : Ptr
  i : Nat
  args : List VaArg

/-- Goes on with a string that is not NULL: `s[i]` of NULL is undefined. -/
def room (m : Mem) (s : Ptr) (l : Nat) : Option (Mem × Ptr) :=
  (sdsMakeRoomFor m s l).bind fun (m, s) => s.map fun s => (m, s)

/-- `if (sdsavail(s) < l) s = sdsMakeRoomFor(s,l); memcpy(s+i,t,l); sdsinclen(s,l); i += l;` -/
def FmtState.put (σ : FmtState) (t : Src) (l : Nat) : Option FmtState :=
  (σ.mem.heap.get σ.s).bind fun h =>
    (if h.sdsavail < l then room σ.mem σ.s l else some (σ.mem, σ.s)).bind fun (m, s) =>
      (m.memcpy s σ.i t l).bind fun m =>
        (m.modify s fun h => some (h.sdsinclen l)).map fun m => { σ with mem := m, s := s, i := σ.i + l }

/-- `s[i++] = c; sdsinclen(s,1);` -/
def FmtState.putc (σ : FmtState) (c : UInt8) : Option FmtState :=
  (σ.mem.modify σ.s fun h => (h.write σ.i [some c]).map (·.sdsinclen 1)).map fun m => { σ with mem := m, i := σ.i + 1 }

/-- The text of a number, from the local buffer `buf`. -/
def FmtState.putNumber (σ : FmtState) : Option (List Byte × Nat) → Option FmtState
  | none => none
  | some (buf, l) => σ.put (.ext buf) l

/-- The directive `%next`; the argument must have its type. -/
def FmtState.directive (σ : FmtState) (next : UInt8) : Option FmtState :=
  let buf := List.replicate SDS_LLSTR_SIZE none
  if next = 115 ∨ next = 83 then -- 's', 'S'
    match σ.args with
    | .str t :: args =>
      (if next = 115 then t.strlen σ.mem else t.sdslen σ.mem).bind fun l => { σ with args := args }.put t l
    | _ => none
  else if next = 105 then -- 'i'
    match σ.args with
    | .int v :: args => { σ with args := args }.putNumber (sdsll2str buf v.toInt64)
    | _ => none
  else if next = 73 then -- 'I'
    match σ.args with
    | .longlong v :: args => { σ with args := args }.putNumber (sdsll2str buf v)
    | _ => none
  else if next = 117 then -- 'u'
    match σ.args with
    | .uint v :: args => { σ with args := args }.putNumber (sdsull2str buf v.toUInt64)
    | _ => none
  else if next = 85 then -- 'U'
    match σ.args with
    | .ulonglong v :: args => { σ with args := args }.putNumber (sdsull2str buf v)
    | _ => none
  else σ.putc next

/-- The loop over the format from its byte `f` on; `f` moves on inside the format in every turn, so that `fuel` need
not be more than its size. -/
def fmtLoop (fmt : Src) : Nat → FmtState → Nat → Option (Mem × Option Ptr)
  | 0, _, _ => none
  | fuel + 1, σ, f =>
    (fmt.byte σ.mem f).bind fun c =>
      if c = 0 then (σ.mem.modify σ.s fun h => h.write σ.i [some 0]).map (·, some σ.s)
      else
        (σ.mem.heap.get σ.s).bind fun h =>
          (if h.sdsavail = 0 then room σ.mem σ.s 1 else some (σ.mem, σ.s)).bind fun (m, s) =>
            let σ := { σ with mem := m, s := s }
            (fmt.byte σ.mem f).bind fun c =>
              if c = 37 then -- '%'
                (fmt.byte σ.mem (f + 1)).bind fun next =>
                  (σ.directive next).bind fun σ => fmtLoop fmt fuel σ (f + 2)
              else (σ.putc c).bind fun σ => fmtLoop fmt fuel σ (f + 1)

/-- `sdscatvfmt` (line 584) -/
def sdscatvfmt (m : Mem) (s : Ptr) (fmt : Src) (args : List VaArg) : Option (Mem × Option Ptr) :=
  (m.heap.get s).bind fun h => (fmt.bytes m).bind fun bs => fmtLoop fmt (bs.length + 1) ⟨m, s, h.len, args⟩ 0

/-! ## A string that is being written -/

/-- The string ends where its block does, or before it, and room for `n` bytes cannot be made: the sizes wrap. -/
structure Cramped (n : Nat) (h : Sdshdr) : Prop where
  len_lt : h.len < 2 ^ h.type.bits
  wraps : ¬ Roomy h.len n
  small : h.buf.length < h.len + n

/-- Between two directives the string `h` ends at `i`, without a null term. -/
structure Writing (σ : FmtState) (h : Sdshdr) : Prop where
  fails : σ.mem.fails = []
  get : σ.mem.heap.get σ.s = some h
  len : h.len = σ.i
  state : Sound h ∨ Cramped 1 h

section Format

variable {m m' : Mem} {s s' : Ptr} {r : Option Ptr} {σ σ' : FmtState} {h b : Sdshdr} {t fmt : Src} {c next : UInt8}
  {f l n fuel : Nat}

theorem room_cases (hf : m.fails = []) (hg : m.heap.get s = some h) (hl : h.len < 2 ^ h.type.bits)
    (hn : h.sdsavail < n) (hr : room m s n = some (m', s')) :
    ∃ b, m'.fails = [] ∧ Moved m.heap.get s s' b m'.heap.get ∧ Grown h n b := by
  obtain ⟨⟨m1, o⟩, h1, ho⟩ := Option.bind_eq_some_iff.mp hr
  rcases makeRoom_cases hf hg hl h1 with ⟨hle, -, -⟩ | ⟨-, q, b, rfl, -, hf1, hmv, hgrown⟩
  · exact absurd hn (Nat.not_lt_of_le hle)
  · cases ho
    exact ⟨b, hf1, hmv, hgrown⟩

/-- After making sure of room for `n` bytes there is room, or no way to make it. -/
theorem ensure_cases (hf : m.fails = []) (hg : m.heap.get s = some h) (hs : Sound h ∨ Cramped 1 h) (hn : 1 ≤ n)
    (hr : (if h.sdsavail < n then room m s n else some (m, s)) = some (m', s')) :
    ∃ b, m'.fails = [] ∧ Moved m.heap.get s s' b m'.heap.get ∧ b.len = h.len ∧
      (Sound b ∧ n ≤ b.sdsavail ∨ Cramped n b) := by
  have hl : h.len < 2 ^ h.type.bits := hs.elim (fun hs => hs.len_lt) (fun hc => hc.len_lt)
  split_ifs at hr with hlt
  · obtain ⟨b, hf1, hmv, hgrown⟩ := room_cases hf hg hl hlt hr
    refine ⟨b, hf1, hmv, hgrown.len, ?_⟩
    by_cases hroomy : Roomy h.len n
    · exact .inl (hgrown.sound hroomy)
    · refine .inr ⟨hgrown.len_lt, ?_, ?_⟩
      · rw [hgrown.len]
        exact hroomy
      · rw [hgrown.len]
        exact hgrown.small hroomy
  · cases hr
    refine ⟨h, hf, .refl hg, rfl, ?_⟩
    rcases hs with hs | hc
    · exact .inl ⟨hs, Nat.le_of_not_lt hlt⟩
    · refine .inr ⟨hc.len_lt, fun hroomy => hc.wraps (hroomy.mono hn), ?_⟩
      have := hc.small
      omega

/-- Bytes written at the end of the string into its free space, and counted. -/
theorem Sound.written {bs : List Byte} (hs : Sound h) (hn : bs.length ≤ h.sdsavail) (hw : h.write h.len bs = some b) :
    Sound (b.sdsinclen bs.length) ∧ (b.sdsinclen bs.length).len = h.len + bs.length := by
  obtain ⟨buf, hbuf, rfl⟩ := Option.map_eq_some_iff.mp hw
  exact hs.grow hn rfl (length_write hbuf)

theorem Writing.written {bs : List Byte} {q : Ptr} (hf : m.fails = []) (hmv : Moved σ.mem.heap.get σ.s q h m.heap.get)
    (hs : Sound h) (hn : bs.length ≤ h.sdsavail) (hw : h.write h.len bs = some b)
    (hf' : m'.fails = m.fails) (hget : m'.heap.get = Function.update m.heap.get q (some (b.sdsinclen bs.length)))
    (args : List VaArg) :
    Moved σ.mem.heap.get σ.s q (b.sdsinclen bs.length) m'.heap.get ∧
      Writing ⟨m', q, h.len + bs.length, args⟩ (b.sdsinclen bs.length) := by
  obtain ⟨hsound, hlen⟩ := hs.written hn hw
  exact ⟨hmv.comp (.stay hget), hf'.trans hf, by rw [hget]; exact Function.update_self .., hlen, .inl hsound⟩

/-- Nothing is written to a string that is cramped. -/
theorem Cramped.written_nil {bs : List Byte} (hc : Cramped 1 h) (h0 : bs.length = 0) (hw : h.write h.len bs = some b) :
    Cramped 1 (b.sdsinclen bs.length) ∧ (b.sdsinclen bs.length).len = h.len := by
  obtain ⟨hty, hl, -, hbuf⟩ := hdr_write_some hw
  have hlen : (b.sdsinclen bs.length).len = h.len := by
    show (b.len + bs.length) % 2 ^ b.type.bits = h.len
    rw [h0, hl, hty]
    exact Nat.mod_eq_of_lt hc.len_lt
  refine ⟨⟨?_, by rw [hlen]; exact hc.wraps, ?_⟩, hlen⟩
  · rw [hlen]
    show h.len < 2 ^ b.type.bits
    rw [hty]
    exact hc.len_lt
  · rw [hlen]
    show b.buf.length < h.len + 1
    rw [length_write hbuf]
    exact hc.small

theorem put_cases (hw : Writing σ h) (hr : σ.put t l = some σ') :
    ∃ b, Moved σ.mem.heap.get σ.s σ'.s b σ'.mem.heap.get ∧ Writing σ' b := by
  unfold FmtState.put at hr
  rw [hw.get, Option.bind_some] at hr
  obtain ⟨⟨m1, s1⟩, hroom, hr⟩ := Option.bind_eq_some_iff.mp hr
  obtain ⟨m2, hcpy, hr⟩ := Option.bind_eq_some_iff.mp hr
  obtain ⟨m3, hinc, he⟩ := Option.map_eq_some_iff.mp hr
  cases he
  obtain ⟨-, bs, b, b1, hread, hb, hw1, hf2, hget2⟩ := memcpy_some hcpy
  obtain ⟨b2, hb2, hf3, hget3⟩ := modify_get (by rw [hget2, Function.update_self]) hinc
  obtain rfl := Option.some.inj hb2
  obtain rfl := Src.read_length hread
  have hget : m3.heap.get = Function.update m1.heap.get s1 (some (b1.sdsinclen bs.length)) := by
    rw [hget3, hget2, Function.update_idem]
  by_cases h0 : bs.length = 0
  · -- nothing is written
    rw [h0, if_neg (Nat.not_lt_zero _)] at hroom
    cases hroom
    obtain rfl := Option.some.inj (hw.get.symm.trans hb)
    rw [← hw.len] at hw1 ⊢
    rcases hw.state with hs | hc
    · exact ⟨_, Writing.written hw.fails (.refl hw.get) hs
        (h0 ▸ Nat.zero_le _) hw1 (hf3.trans hf2) hget σ.args⟩
    · obtain ⟨hcramped, hlen⟩ := hc.written_nil h0 hw1
      refine ⟨_, .stay hget, (hf3.trans hf2).trans hw.fails, by rw [hget]; exact Function.update_self .., ?_,
        .inr hcramped⟩
      rw [hlen, h0]
      rfl
  · obtain ⟨c, hf1, hmv, hlen, hc⟩ := ensure_cases hw.fails hw.get hw.state (Nat.pos_of_ne_zero h0) hroom
    rw [hmv.get_self] at hb
    obtain rfl := Option.some.inj hb
    rw [← hw.len, ← hlen] at hw1
    rcases hc with ⟨hs, hn⟩ | hc
    · have := Writing.written hf1 hmv hs hn hw1 (hf3.trans hf2) hget σ.args
      rw [hlen, hw.len] at this
      exact ⟨_, this⟩
    · obtain ⟨hfit, -⟩ := write_some (hdr_write_some hw1).2.2.2
      exact absurd hfit (Nat.not_le_of_lt hc.small)

theorem putc_cases (hw : Writing σ h) (havail : Sound h → 1 ≤ h.sdsavail) (hr : σ.putc c = some σ') :
    ∃ b, Moved σ.mem.heap.get σ.s σ'.s b σ'.mem.heap.get ∧ Writing σ' b := by
  obtain ⟨m1, hmod, he⟩ := Option.map_eq_some_iff.mp hr
  cases he
  obtain ⟨b2, hb2, hf, hget⟩ := modify_get hw.get hmod
  obtain ⟨b1, hw1, rfl⟩ := Option.map_eq_some_iff.mp hb2
  rw [← hw.len] at hw1
  rcases hw.state with hs | hc
  · have hone : [some c].length ≤ h.sdsavail := havail hs
    have := Writing.written hw.fails (.refl hw.get) hs hone hw1 hf hget
      σ.args
    rw [hw.len] at this
    exact ⟨_, this⟩
  · obtain ⟨hfit, -⟩ := write_some (hdr_write_some hw1).2.2.2
    exact absurd hfit (Nat.not_le_of_lt hc.small)

theorem Writing.with_args (hw : Writing σ h) (args : List VaArg) : Writing { σ with args := args } h :=
  ⟨hw.fails, hw.get, hw.len, hw.state⟩

theorem putNumber_cases {o : Option (List Byte × Nat)} (hw : Writing σ h) (hr : σ.putNumber o = some σ') :
    ∃ b, Moved σ.mem.heap.get σ.s σ'.s b σ'.mem.heap.get ∧ Writing σ' b := by
  cases o with
  | none => cases hr
  | some text => exact put_cases hw hr

theorem directive_cases (hw : Writing σ h) (havail : Sound h → 1 ≤ h.sdsavail) (hr : σ.directive next = some σ') :
    ∃ b, Moved σ.mem.heap.get σ.s σ'.s b σ'.mem.heap.get ∧ Writing σ' b := by
  unfold FmtState.directive at hr
  dsimp only at hr
  split at hr
  · split at hr
    · rename_i t args _
      obtain ⟨l, -, hr⟩ := Option.bind_eq_some_iff.mp hr
      exact put_cases (σ := { σ with args := args }) (hw.with_args args) hr
    · simp at hr
  split at hr
  · split at hr
    · rename_i v args _
      exact putNumber_cases (σ := { σ with args := args }) (hw.with_args args) hr
    · simp at hr
  split at hr
  · split at hr
    · rename_i v args _
      exact putNumber_cases (σ := { σ with args := args }) (hw.with_args args) hr
    · simp at hr
  split at hr
  · split at hr
    · rename_i v args _
      exact putNumber_cases (σ := { σ with args := args }) (hw.with_args args) hr
    · simp at hr
  split at hr
  · split at hr
    · rename_i v args _
      exact putNumber_cases (σ := { σ with args := args }) (hw.with_args args) hr
    · simp at hr
  · exact putc_cases hw havail hr

/-- The loop, from a string that is being written to a terminated one. -/
theorem fmtLoop_cases (hw : Writing σ h) (hr : fmtLoop fmt fuel σ f = some (m', r)) : Replaced σ.mem σ.s m' r := by
  induction fuel generalizing σ h f with
  | zero => cases hr
  | succ fuel ih =>
    unfold fmtLoop at hr
    obtain ⟨c, -, hr⟩ := Option.bind_eq_some_iff.mp hr
    split_ifs at hr with hc
    · -- the null term finds room, so the string is sound
      obtain ⟨m1, hmod, he⟩ := Option.map_eq_some_iff.mp hr
      cases he
      obtain ⟨b1, hb1, hf, hget⟩ := modify_get hw.get hmod
      rw [← hw.len] at hb1
      obtain ⟨hty, hl, ha, hbuf⟩ := hdr_write_some hb1
      have hfit := (write_some hbuf).1
      rcases hw.state with hs | hc
      · obtain ⟨buf, hbuf', rfl⟩ := Option.map_eq_some_iff.mp hb1
        obtain ⟨hsound, hmod⟩ := hs.grow (Nat.zero_le _) (Nat.add_zero _).symm (length_write hbuf')
        rw [hmod] at hsound
        refine ⟨_, _, rfl, hf.trans hw.fails, .stay hget, hsound, terminated_of_take (l := h.buf.take h.len) ?_ ?_⟩
        · rw [List.length_take]
          exact Nat.min_eq_left (Nat.le_of_succ_le hfit)
        · exact take_write hbuf
      · exact absurd hfit (Nat.not_le_of_lt hc.small)
    · rw [hw.get, Option.bind_some] at hr
      obtain ⟨⟨m1, s1⟩, hroom, hr⟩ := Option.bind_eq_some_iff.mp hr
      obtain ⟨c', -, hr⟩ := Option.bind_eq_some_iff.mp hr
      have hlt : (h.sdsavail = 0) = (h.sdsavail < 1) := propext Nat.lt_one_iff.symm
      simp only [hlt] at hroom
      obtain ⟨b, hf1, hmv, hlen, hb⟩ := ensure_cases hw.fails hw.get hw.state (Nat.le_refl 1) hroom
      have hw1 : Writing { σ with mem := m1, s := s1 } b :=
        ⟨hf1, hmv.get_self, hlen.trans hw.len, hb.imp And.left id⟩
      have havail : Sound b → 1 ≤ b.sdsavail := by
        intro hs
        rcases hb with ⟨-, hn⟩ | hc
        · exact hn
        · exact absurd hc.small (Nat.not_lt_of_le (Nat.lt_of_le_of_lt (Nat.le_add_right _ _) hs.room))
      split_ifs at hr
      · obtain ⟨next, -, hr⟩ := Option.bind_eq_some_iff.mp hr
        obtain ⟨σ1, hdir, hr⟩ := Option.bind_eq_some_iff.mp hr
        obtain ⟨b', hmv', hw'⟩ := directive_cases hw1 havail hdir
        exact (ih hw' hr).after (hmv.comp hmv')
      · obtain ⟨σ1, hput, hr⟩ := Option.bind_eq_some_iff.mp hr
        obtain ⟨b', hmv', hw'⟩ := putc_cases hw1 havail hput
        exact (ih hw' hr).after (hmv.comp hmv')

/-- **A format that is appended** leaves a sound and terminated string at the pointer returned. -/
theorem sdscatvfmt_cases {args : List VaArg} (hf : m.fails = []) (hg : m.heap.get s = some h) (hs : Sound h)
    (hr : sdscatvfmt m s fmt args = some (m', r)) : Replaced m s m' r := by
  unfold sdscatvfmt at hr
  rw [hg, Option.bind_some] at hr
  obtain ⟨bs, -, hr⟩ := Option.bind_eq_some_iff.mp hr
  exact fmtLoop_cases (σ := ⟨m, s, h.len, args⟩) ⟨hf, hg, rfl, .inl hs⟩ hr

end Format

end BeanRaft.Slice
