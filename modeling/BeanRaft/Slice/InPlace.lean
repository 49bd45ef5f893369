import BeanRaft.Slice.Late

/-!
# BeanRaft.Slice.InPlace — the loop over a format, from a string in place

* `Here`: the string is where it was, with the text in front of what was behind the old bytes.
* `Here.turn_kept`, `Here.turn_late`: a turn in place, with a source that is as it was and with one that is not.
* `fmtLoop_iff`: the loop appends the text if and only if everything is read in time.
* `appendFmt_expands`: so does `appendFmt`, when the format does not end in a single `%`.
-/

namespace BeanRaft.Slice

open CInt Lib

/-! ## In place -/

/-- The string is where it was: `app` has been appended, and the rest of the block is as it was. -/
structure Here (p : Ptr) (h0 : Sdshdr) (σ : FmtState) (h : Sdshdr) (app : List Byte) : Prop where
  s : σ.s = p
  type : h.type = h0.type
  alloc : h.alloc = h0.alloc
  buf : h.buf = h0.buf.take h0.len ++ app ++ h0.buf.drop (h0.len + app.length)

section Here

variable {m : Mem} {p : Ptr} {h0 h b : Sdshdr} {σ σ' : FmtState} {app t bs : List Byte} {keeps : Bool} {u : Src}
  {a : VaArg} {args : List VaArg} {next : UInt8} {c : UInt8} {n j l off : Nat} {fmt : Src}

theorem Written.i_eq (hw : Written m p σ h (h0.buf.take h0.len ++ app)) (hs : Sound h0) :
    σ.i = h0.len + app.length := by
  rw [← hw.length, List.length_append, take_len hs]

theorem Here.get (hh : Here p h0 σ h app) (hw : Written m p σ h (h0.buf.take h0.len ++ app)) :
    σ.mem.heap.get p = some h := by
  rw [← hh.s]
  exact hw.moved.get_self

/-- The free space that is left. -/
theorem Here.avail (hh : Here p h0 σ h app) (hw : Written m p σ h (h0.buf.take h0.len ++ app)) (hs : Sound h0) :
    h.sdsavail = h0.sdsavail - app.length := by
  have hlen : h.len = h0.len + app.length := hw.len.trans (hw.i_eq hs)
  by_cases ht : h0.type = .type5
  · rw [sdsavail_type5 ht, sdsavail_type5 (hh.type.trans ht)]
    omega
  · have ht' : h.type ≠ .type5 := by
      rw [hh.type]
      exact ht
    rw [sdsavail_eq ht (hs.len_le ht) (hs.alloc_lt ht), sdsavail_eq ht' (hw.sound.len_le ht') (hw.sound.alloc_lt ht'),
      hh.alloc, hlen]
    omega

theorem Here.length (hh : Here p h0 σ h app) (hw : Written m p σ h (h0.buf.take h0.len ++ app)) (hs : Sound h0) :
    h.buf.length = h0.buf.length := by
  have hroom := hw.sound.room
  have hlen : h.len = h0.len + app.length := hw.len.trans (hw.i_eq hs)
  have hbuf := congrArg List.length hh.buf
  rw [List.length_append, List.length_append, take_len hs, List.length_drop] at hbuf
  omega

theorem Here.store (hh : Here p h0 σ h app) (hi : σ.i = h0.len + app.length) (hs : Sound h0)
    (hwrite : h.write σ.i bs = some b) (hσ : σ'.s = σ.s) : Here p h0 σ' (b.sdsinclen n) (app ++ bs) := by
  obtain ⟨hty, -, hal, hbuf⟩ := hdr_write_some hwrite
  refine ⟨hσ.trans hh.s, hty.trans hh.type, hal.trans hh.alloc, ?_⟩
  have hlen : (h0.buf.take h0.len ++ app).length = σ.i := by rw [List.length_append, take_len hs, hi]
  show b.buf = _
  rw [(write_some hbuf).2, hh.buf, List.take_left' hlen, ← List.drop_drop, List.drop_left' hlen, List.drop_drop,
    List.length_append, List.append_assoc, List.append_assoc, List.append_assoc, List.append_assoc, Nat.add_assoc]

/-- The begin of the block is as it was. -/
theorem Here.take (hh : Here p h0 σ h app) (hs : Sound h0) (ht : Terminated h0)
    (hkeeps : keeps = true → app ≠ [] → app.head? = some (some 0)) :
    h.buf.take (unchanged h0 keeps app.length) = h0.buf.take (unchanged h0 keeps app.length) := by
  have hlen := take_len hs
  have hroom := hs.room
  unfold unchanged
  rw [hh.buf]
  cases app with
  | nil => rw [List.append_nil, show h0.len + ([] : List Byte).length = h0.len from rfl, List.take_append_drop]
  | cons x app =>
    rw [if_congr (or_iff_right (by rw [List.length_cons]; exact Nat.succ_ne_zero _)) rfl rfl]
    split_ifs with hk
    · have hx : x = some 0 := Option.some.inj (hkeeps hk (List.cons_ne_nil _ _))
      rw [List.append_assoc, List.take_append, hlen, List.take_of_length_le (by omega),
        show h0.len + 1 - h0.len = 1 by omega, List.cons_append, List.take_succ_cons, List.take_zero, hx,
        List.take_succ_eq_append_getElem (by omega)]
      congr 2
      exact (Option.some.inj ((List.getElem?_eq_getElem (by omega)).symm.trans ht)).symm
    · rw [List.append_assoc, List.take_append_of_le_length (by omega), List.take_take, Nat.min_self]

/-- The first byte that was appended is where the null term was. -/
theorem Here.head (hh : Here p h0 σ h app) (hs : Sound h0) (hne : app ≠ []) : h.buf[h0.len]? = app.head? := by
  have hpos := List.length_pos_iff.mpr hne
  have hlen := take_len hs
  rw [hh.buf, List.append_assoc, List.getElem?_append_right (by omega), hlen, Nat.sub_self,
    List.getElem?_append_left hpos, List.head?_eq_getElem?]

theorem Written.past (hw : Written m p σ h (h0.buf.take h0.len ++ app)) (hh : Here p h0 σ h app) (hs : Sound h0) :
    Past m p h0 σ h := by
  have hget := hw.moved.get_self
  have hi := hw.i_eq hs
  refine ⟨⟨hw.fails, hget, hw.len, .inl hw.sound⟩, hw.moved, ?_, by omega, fun _ => ?_⟩
  · rw [← hh.s]
    exact Heap.lt_next hget
  · rw [hh.buf, List.append_assoc, List.take_append_of_le_length (by rw [take_len hs]), List.take_take, Nat.min_self]

/-- What is put is read in place. -/
theorem Written.put_here (hw : Written m p σ h (h0.buf.take h0.len ++ app)) (hh : Here p h0 σ h app) (hs : Sound h0)
    (hread : u.read σ.mem t.length = some t) (hmeet : u.meets p σ.i t.length = false) (havail : t.length ≤ h.sdsavail) :
    ∃ σ' h', σ.put u t.length = some σ' ∧ σ'.args = σ.args ∧
      Written m p σ' h' (h0.buf.take h0.len ++ (app ++ t)) ∧ Here p h0 σ' h' (app ++ t) := by
  have hens : (if h.sdsavail < t.length then room σ.mem σ.s t.length else some (σ.mem, σ.s)) = some (σ.mem, σ.s) :=
    if_neg (Nat.not_lt_of_le havail)
  rw [← hh.s] at hmeet
  obtain ⟨σ', b, hput, hargs, hσ, hwrite, hw'⟩ := hw.put_read hens hw havail hread hmeet
  rw [List.append_assoc] at hw'
  exact ⟨σ', _, hput, hargs, hw', hh.store (hw.i_eq hs) hs hwrite hσ⟩

theorem Written.putc_here (hw : Written m p σ h (h0.buf.take h0.len ++ app)) (hh : Here p h0 σ h app)
    (hs : Sound h0) (havail : 1 ≤ h.sdsavail) :
    ∃ σ' h', σ.putc c = some σ' ∧ σ'.args = σ.args ∧
      Written m p σ' h' (h0.buf.take h0.len ++ (app ++ [some c])) ∧ Here p h0 σ' h' (app ++ [some c]) := by
  obtain ⟨σ', b, hput, hargs, hσ, hwrite, hw'⟩ := hw.putc havail
  rw [List.append_assoc] at hw'
  exact ⟨σ', _, hput, hargs, hw', hh.store (hw.i_eq hs) hs hwrite hσ⟩

/-- The length of a string inside, as `%s` and `%S` read it, is not less than it was, and the same if it is kept. -/
theorem length_here (hh : Here p h0 σ h app) (hw : Written m p σ h (h0.buf.take h0.len ++ app)) (hs : Sound h0)
    (hg : m.heap.get p = some h0) (ht : (VaArg.str (.sds p off)).text m next = some t)
    (htake : h.buf.take (unchanged h0 keeps app.length) = h0.buf.take (unchanged h0 keeps app.length))
    (hkept : ((VaArg.str (.sds p off)).turn m next).Kept p h0 keeps app.length) :
    (if next = 115 then (Src.sds p off).strlen σ.mem else (Src.sds p off).sdslen σ.mem) = some t.length := by
  have hget := hh.get hw
  have hlen := hh.length hw hs
  obtain ⟨hl, -, -⟩ := text_str ht
  have hk := hkept _ rfl
  rw [turn_size ht] at hk
  split_ifs at hl hk ⊢ with h115
  · obtain ⟨hoff, hl⟩ := strlen_sds hg hl
    have hlt := hk (decide_eq_true rfl)
    show ((Src.sds p off).bytes σ.mem).bind strlenOf = _
    rw [bytes_sds hget (by omega), Option.bind_some]
    exact strlenOf_congr hl (take_drop_eq htake hlt)
  · have hnil : app = [] := List.length_eq_zero_iff.mp (hk (decide_eq_true rfl))
    obtain ⟨rfl, hlen'⟩ := sdslen_sds hg hl
    have hi := hw.i_eq hs
    rw [hnil, List.length_nil, Nat.add_zero] at hi
    show (σ.mem.heap.get p).map Sdshdr.len = _
    rw [hget, Option.map_some, hw.len, hi, hlen']

/-- A source inside that is not kept is read as more bytes than it had. -/
theorem length_longer (hh : Here p h0 σ h app) (hw : Written m p σ h (h0.buf.take h0.len ++ app))
    (hs : Sound h0) (ht0 : Terminated h0) (hg : m.heap.get p = some h0)
    (ht : (VaArg.str (.sds p off)).text m next = some t)
    (hkeeps : app ≠ [] → app.head? = some (some 0) → keeps = true)
    (hno : ¬ ((VaArg.str (.sds p off)).turn m next).Kept p h0 keeps app.length)
    (hl : (if next = 115 then (Src.sds p off).strlen σ.mem else (Src.sds p off).sdslen σ.mem) = some l) :
    t.length < l := by
  have hend := text_end hg ht0 ht
  obtain ⟨-, hle⟩ := (hw.past hh hs).length hg ht0 ht hl
  refine Nat.lt_of_le_of_ne hle ?_
  rintro rfl
  refine hno fun src hsrc => ?_
  cases hsrc
  rw [turn_size ht]
  split_ifs at hl ⊢ with h115
  · intro _
    show off + t.length < unchanged h0 keeps app.length
    by_contra hlt
    -- the null term that was read is the first byte that was appended
    have hlen : off + t.length = h0.len := by
      have := unchanged_le h0 keeps app.length
      omega
    have hzero := strlenOf_get (strlen_sds (hh.get hw) hl).2
    rw [List.getElem?_drop, hlen] at hzero
    unfold unchanged at hlt
    by_cases hnil : app = []
    · rw [hnil, if_pos (.inl rfl)] at hlt
      omega
    · rw [hh.head hs hnil] at hzero
      rw [if_pos (.inr (hkeeps hnil hzero))] at hlt
      omega
  · intro _
    have hi := hw.i_eq hs
    obtain ⟨-, hlen⟩ := sdslen_sds (hh.get hw) hl
    rw [hw.len, hi] at hlen
    omega

/-- A directive whose source is kept appends its text in place. -/
theorem Written.directive_here (hw : Written m p σ h (h0.buf.take h0.len ++ app)) (hh : Here p h0 σ h app)
    (hs : Sound h0) (ht0 : Terminated h0) (hg : m.heap.get p = some h0) (hargs : σ.args = a :: args)
    (ht : a.text m next = some t) (hkeeps : keeps = true → app ≠ [] → app.head? = some (some 0))
    (havail : t.length ≤ h.sdsavail) (hkept : (a.turn m next).Kept p h0 keeps app.length) :
    ∃ σ' h', σ.directive next = some σ' ∧ σ'.args = args ∧
      Written m p σ' h' (h0.buf.take h0.len ++ (app ++ t)) ∧ Here p h0 σ' h' (app ++ t) := by
  have hw' := hw.with_args args
  have hh' : Here p h0 { σ with args := args } h app := ⟨hh.s, hh.type, hh.alloc, hh.buf⟩
  cases a with
  | str u =>
    obtain ⟨hl, hread, -⟩ := text_str ht
    rw [directive_str hargs ht]
    by_cases hin : u.inside p = true
    · obtain ⟨off, rfl⟩ := Src.exists_place hin
      have htake := hh.take hs ht0 hkeeps
      have hend := text_end hg ht0 ht
      have hle := unchanged_le h0 keeps app.length
      have hi := hw.i_eq hs
      rw [length_here hh hw hs hg ht htake hkept, Option.bind_some]
      have hget : σ.mem.heap.get p = some h := by
        rw [← hh.s]
        exact hw.moved.get_self
      exact hw'.put_here hh' hs (read_unchanged hg hget (hh.length hw hs) htake (by omega) hread)
        (meets_before (show off + t.length ≤ σ.i by omega)) havail
    · have hout := Bool.eq_false_iff.mpr hin
      have hl' : (if next = 115 then u.strlen σ.mem else u.sdslen σ.mem) = some t.length := by
        split_ifs at hl ⊢
        · exact Src.strlen_moved hw.moved hout hl
        · exact Src.sdslen_moved hw.moved hout hl
      rw [hl', Option.bind_some]
      exact hw'.put_here hh' hs (Src.read_moved hw.moved hout hread) (Src.meets_of_inside hout _ _) havail
  | int | uint | longlong | ulonglong =>
    obtain ⟨l, hdir⟩ := directive_num hargs (by intro u hu; cases hu) ht
    rw [hdir]
    exact hw'.put_here hh' hs read_ext rfl havail

/-- The format is read as it was in the part of the block that is unchanged. -/
theorem Here.byte (hh : Here p h0 σ h app) (hw : Written m p σ h (h0.buf.take h0.len ++ app))
    (hg : m.heap.get p = some h0)
    (htake : h.buf.take (unchanged h0 keeps app.length) = h0.buf.take (unchanged h0 keeps app.length))
    (hkept : fmt.Kept p h0 keeps app.length j) (hc : fmt.byte m j = some c) : fmt.byte σ.mem j = some c := by
  by_cases hin : fmt.inside p = true
  · obtain ⟨off, rfl⟩ := Src.exists_place hin
    have hlt := hkept hin
    rw [byte_sds (hh.get hw), ← List.getElem?_take_of_lt (show off + j < unchanged h0 keeps app.length from hlt), htake,
      List.getElem?_take_of_lt (show off + j < unchanged h0 keeps app.length from hlt)]
    exact (byte_sds hg).mp hc
  · obtain ⟨bytes, hbytes, hc⟩ := Option.bind_eq_some_iff.mp hc
    rw [Src.byte_eq (Src.bytes_moved hw.moved (Bool.eq_false_iff.mpr hin) hbytes)]
    exact hc

end Here

/-! ## Turns in place -/

section Turn

variable {m : Mem} {p : Ptr} {h0 h : Sdshdr} {σ : FmtState} {app t bs : List Byte} {fmt : Src} {u : Turn}
  {args args' : List VaArg} {c : UInt8} {f fuel : Nat} {all fs fs' : List UInt8} {keeps : Bool}

/-- A turn with free space is made in place, up to the `switch`. -/
theorem Here.begin (hh : Here p h0 σ h app) (hw : Written m p σ h (h0.buf.take h0.len ++ app)) (hs : Sound h0)
    (ht0 : Terminated h0) (hg : m.heap.get p = some h0) (hfmt : fmt.IsString m all)
    (hkeeps : keeps = true → app ≠ [] → app.head? = some (some 0)) (hdrop : all.drop f = c :: fs)
    (havail : 1 ≤ h.sdsavail) (fuel : Nat) :
    fmtLoop fmt (fuel + 1) σ f = if c = 37 then (fmt.byte σ.mem (f + 1)).bind fun next =>
        (σ.directive next).bind fun σ => fmtLoop fmt fuel σ (f + 2)
      else (σ.putc c).bind fun σ => fmtLoop fmt fuel σ (f + 1) := by
  obtain ⟨hkept, hold⟩ := kept_char hg ht0 hfmt hdrop keeps app.length
  have hc := hh.byte hw hg (hh.take hs ht0 hkeeps) hkept hold
  have hσ : (⟨σ.mem, σ.s, σ.i, σ.args⟩ : FmtState) = σ := rfl
  rw [fmtLoop, hc, Option.bind_some, if_neg (ne_zero_of_drop hfmt hdrop), hw.moved.get_self, Option.bind_some, if_neg (by omega),
    Option.bind_some]
  dsimp only
  rw [hc, Option.bind_some, hσ]

/-- The next character of the format, in place. -/
theorem Here.char (hh : Here p h0 σ h app) (hw : Written m p σ h (h0.buf.take h0.len ++ app)) (hs : Sound h0)
    (ht0 : Terminated h0) (hg : m.heap.get p = some h0) (hfmt : fmt.IsString m all)
    (hkeeps : keeps = true → app ≠ [] → app.head? = some (some 0)) (hdrop : all.drop f = c :: fs) :
    fmt.byte σ.mem f = some c ∧ all.drop (f + 1) = fs ∧ f + 1 ≤ all.length := by
  obtain ⟨hkept, hold⟩ := kept_char hg ht0 hfmt hdrop keeps app.length
  obtain ⟨hlt, -⟩ := List.getElem?_eq_some_iff.mp (getElem?_of_drop hdrop)
  exact ⟨hh.byte hw hg (hh.take hs ht0 hkeeps) hkept hold, drop_of_drop hdrop, hlt⟩

/-- A turn whose source is as it was appends its text in place. -/
theorem Here.turn_kept (hh : Here p h0 σ h app) (hw : Written m p σ h (h0.buf.take h0.len ++ app)) (hs : Sound h0)
    (ht0 : Terminated h0) (hg : m.heap.get p = some h0) (hfmt : fmt.IsString m all)
    (hkeeps : keeps = true → app ≠ [] → app.head? = some (some 0)) (ho : OneTurn m fs args u t fs' args')
    (hdrop : all.drop f = fs) (hargs : σ.args = args) (havail : max t.length 1 ≤ h.sdsavail)
    (hkept : u.Kept p h0 keeps app.length) (fuel : Nat) :
    ∃ σ2 h2 f', fmtLoop fmt (fuel + 1) σ f = fmtLoop fmt fuel σ2 f' ∧ all.drop f' = fs' ∧ f' ≤ all.length ∧
      σ2.args = args' ∧ Written m p σ2 h2 (h0.buf.take h0.len ++ (app ++ t)) ∧ Here p h0 σ2 h2 (app ++ t) := by
  obtain ⟨havail, hone⟩ := Nat.max_le.mp havail
  cases ho with
  | @arg next fs a args t hn ht =>
    obtain ⟨-, hdrop1, -⟩ := hh.char hw hs ht0 hg hfmt hkeeps hdrop
    obtain ⟨hnext, hdrop2, hle2⟩ := hh.char hw hs ht0 hg hfmt hkeeps hdrop1
    obtain ⟨σ2, h2, hdir, hargs2, hw2, hh2⟩ := hw.directive_here hh hs ht0 hg hargs ht hkeeps havail hkept
    refine ⟨σ2, h2, f + 2, ?_, hdrop2, hle2, hargs2, hw2, hh2⟩
    rw [hh.begin hw hs ht0 hg hfmt hkeeps hdrop hone, if_pos rfl, hnext, Option.bind_some, hdir, Option.bind_some]
  | @other next fs args hn =>
    obtain ⟨-, hdrop1, -⟩ := hh.char hw hs ht0 hg hfmt hkeeps hdrop
    obtain ⟨hnext, hdrop2, hle2⟩ := hh.char hw hs ht0 hg hfmt hkeeps hdrop1
    obtain ⟨σ2, h2, hput, hargs2, hw2, hh2⟩ := hw.putc_here (c := next) hh hs hone
    refine ⟨σ2, h2, f + 2, ?_, hdrop2, hle2, hargs2.trans hargs, hw2, hh2⟩
    rw [hh.begin hw hs ht0 hg hfmt hkeeps hdrop hone, if_pos rfl, hnext, Option.bind_some, directive_other hn, hput,
      Option.bind_some]
  | @char c fs args hchar =>
    obtain ⟨-, hdrop1, hle1⟩ := hh.char hw hs ht0 hg hfmt hkeeps hdrop
    obtain ⟨σ2, h2, hput, hargs2, hw2, hh2⟩ := hw.putc_here (c := c) hh hs hone
    refine ⟨σ2, h2, f + 1, ?_, hdrop1, hle1, hargs2.trans hargs, hw2, hh2⟩
    rw [hh.begin hw hs ht0 hg hfmt hkeeps hdrop hone, if_neg hchar, hput, Option.bind_some]

/-- A turn whose source is not as it was appends more. -/
theorem Here.turn_late (hh : Here p h0 σ h app) (hw : Written m p σ h (h0.buf.take h0.len ++ app)) (hs : Sound h0)
    (ht0 : Terminated h0) (hg : m.heap.get p = some h0) (hfmt : fmt.IsString m all)
    (hkeeps : app ≠ [] → (keeps = true ↔ app.head? = some (some 0))) (ho : OneTurn m fs args u t fs' args')
    (hdrop : all.drop f = fs) (hargs : σ.args = args) (havail : max t.length 1 ≤ h.sdsavail)
    (hno : ¬ u.Kept p h0 keeps app.length) {m' : Mem} {r : Option Ptr}
    (hr : fmtLoop fmt (fuel + 1) σ f = some (m', r)) :
    ∃ σ2 h2 f', fmtLoop fmt fuel σ2 f' = some (m', r) ∧ all.drop f' = fs' ∧ Past m p h0 σ2 h2 ∧ σ2.args = args' ∧
      σ.i + t.length < σ2.i := by
  have hkeeps' : keeps = true → app ≠ [] → app.head? = some (some 0) := fun hk hne => (hkeeps hne).mp hk
  obtain ⟨-, hone⟩ := Nat.max_le.mp havail
  cases ho with
  | @arg next fs a args t hn ht =>
    obtain ⟨-, hdrop1, -⟩ := hh.char hw hs ht0 hg hfmt hkeeps' hdrop
    obtain ⟨hnext, hdrop2, -⟩ := hh.char hw hs ht0 hg hfmt hkeeps' hdrop1
    rw [hh.begin hw hs ht0 hg hfmt hkeeps' hdrop hone, if_pos rfl, hnext, Option.bind_some] at hr
    obtain ⟨σ2, hdir, hr⟩ := Option.bind_eq_some_iff.mp hr
    obtain ⟨h2, hp2, -, hargs2, -⟩ := (hw.past hh hs).directive hg ht0 hargs ht hdir
    refine ⟨σ2, h2, f + 2, hr, hdrop2, hp2, hargs2, ?_⟩
    cases a with
    | str u =>
      rw [directive_str hargs ht] at hdir
      obtain ⟨l, hl, hput⟩ := Option.bind_eq_some_iff.mp hdir
      obtain ⟨-, -, hi, -⟩ := ((hw.past hh hs).with_args _).put hput
      have hi' : σ2.i = σ.i + l := hi
      obtain ⟨off, rfl⟩ : ∃ off, u = .sds p off := by
        by_contra hout
        refine hno fun src hsrc => ?_
        cases hsrc
        split_ifs
        · exact fun hin => absurd (Src.exists_place hin) hout
        · exact fun hin => absurd (Src.exists_place hin) hout
      have hlt := length_longer hh hw hs ht0 hg ht (fun hne => (hkeeps hne).mpr) hno hl
      omega
    | int | uint | longlong | ulonglong => exact absurd (fun src hsrc => by cases hsrc) hno
  | other | char => exact absurd (fun src hsrc => by cases hsrc) hno

theorem inTime_cons {size k : Nat} {u : Turn} {us : List Turn} (hfit : k + max u.size 1 ≤ h0.sdsavail) :
    InTime p h0 keeps fmt size k (u :: us) ↔ u.Kept p h0 keeps k ∧ InTime p h0 keeps fmt size (k + u.size) us := by
  rw [InTime, if_pos hfit]

theorem inTime_moved {size k : Nat} {u : Turn} {us : List Turn} (hfit : ¬ k + max u.size 1 ≤ h0.sdsavail) :
    InTime p h0 keeps fmt size k (u :: us) ↔ fmt.inside p = false ∧ ∀ v ∈ u :: us, v.Outside p := by
  rw [InTime, if_neg hfit]

theorem Finished.unique {text : List Byte} {m' : Mem} {q : Ptr} {b : Sdshdr} {o : Option (Mem × Option Ptr)}
    (hfin : Finished m p text o) (ho : o = some (m', some q)) (hb : m'.heap.get q = some b) : b.len = text.length := by
  obtain ⟨m1, q1, b1, ho1, hmv, -, -, hlen, -⟩ := hfin
  rw [ho] at ho1
  obtain ⟨rfl, hq⟩ := Prod.mk.inj (Option.some.inj ho1)
  obtain rfl := Option.some.inj hq
  obtain rfl := Option.some.inj (hmv.get_self.symm.trans hb)
  exact hlen

/-- At the end of the format its null term is read, if it is still there. -/
theorem finished_nil_iff (hw : Written m p σ h (h0.buf.take h0.len ++ app)) (hh : Here p h0 σ h app) (hs : Sound h0)
    (ht0 : Terminated h0) (hg : m.heap.get p = some h0) (hfmt : fmt.IsString m all)
    (hkeeps : app ≠ [] → (keeps = true ↔ app.head? = some (some 0))) (hargs : σ.args = []) :
    Finished m p (h0.buf.take h0.len ++ app) (fmtLoop fmt (fuel + 1) σ all.length) ↔
      fmt.Kept p h0 keeps app.length all.length := by
  constructor
  · intro hfin hin
    obtain ⟨off, rfl⟩ := Src.exists_place hin
    obtain ⟨m', q, b, hr, -⟩ := id hfin
    obtain ⟨q', b', hq, hb, hle, hlt⟩ := (hw.past hh hs).loop_nil hargs hr
    cases hq
    have hlen := hfin.unique hr hb
    rw [hw.length] at hlen
    have hzero : (Src.sds p off).byte σ.mem all.length = some 0 := by
      by_contra hne
      have := hlt hne
      omega
    show off + all.length < unchanged h0 keeps app.length
    by_contra hno
    have hend := isString_end hg ht0 hfmt
    have hplace : off + all.length = h0.len := by
      have := unchanged_le h0 keeps app.length
      omega
    have hc := (byte_sds (hh.get hw)).mp hzero
    rw [hplace] at hc
    unfold unchanged at hno
    by_cases hnil : app = []
    · rw [hnil, if_pos (.inl rfl)] at hno
      omega
    · rw [hh.head hs hnil] at hc
      rw [if_pos (.inr ((hkeeps hnil).mpr hc))] at hno
      omega
  · intro hkept
    have hold : fmt.byte m all.length = some 0 := by
      rw [byte_of_isString hfmt (Nat.le_refl _), List.getElem?_append_right (Nat.le_refl _), Nat.sub_self]
      rfl
    have hzero := hh.byte hw hg (hh.take hs ht0 fun hk hne => (hkeeps hne).mp hk) hkept hold
    rw [fmtLoop, hzero, Option.bind_some, if_pos rfl]
    exact hw.finish

/-- **The loop from a string in place** appends the text if and only if everything is read in time. -/
theorem fmtLoop_iff (hs : Sound h0) (ht0 : Terminated h0) (hg : m.heap.get p = some h0) (hfmt : fmt.IsString m all)
    (hexp : Expands m fs args bs) (hper : endsInPercent fs = false) (hdrop : all.drop f = fs) (hf : f ≤ all.length)
    (hfuel : fs.length < fuel) (hw : Written m p σ h (h0.buf.take h0.len ++ app)) (hh : Here p h0 σ h app)
    (hargs : σ.args = args) (hroomy : Roomy (h0.buf.take h0.len ++ app).length (bs.length + 1))
    (hkeeps : app ++ bs ≠ [] → (keeps = true ↔ (app ++ bs).head? = some (some 0))) :
    Finished m p (h0.buf.take h0.len ++ (app ++ bs)) (fmtLoop fmt fuel σ f) ↔
      InTime p h0 keeps fmt all.length app.length (turns m fs args) := by
  induction fuel generalizing σ h f fs args bs app with
  | zero => exact absurd hfuel (Nat.not_lt_zero _)
  | succ fuel ih =>
    have hfirst : app ≠ [] → (keeps = true ↔ app.head? = some (some 0)) := by
      intro hne
      rw [hkeeps (List.append_ne_nil_of_left_ne_nil hne bs), List.head?_append_of_ne_nil _ hne]
    have havail := hh.avail hw hs
    by_cases hnil : fs = []
    · subst hnil
      have hlen : f = all.length := Nat.le_antisymm hf (List.drop_eq_nil_iff.mp hdrop)
      cases hexp
      rw [hlen, List.append_nil]
      exact finished_nil_iff hw hh hs ht0 hg hfmt hfirst hargs
    · have hwhole := hexp
      obtain ⟨u, t, fs', args', bs', ho, rfl, hexp', hper', hshort⟩ := hexp.turn hper hnil
      obtain ⟨hturns, hsize⟩ := ho.turns
      rw [hturns, ← List.append_assoc app]
      by_cases hfit : app.length + max u.size 1 ≤ h0.sdsavail
      · rw [inTime_cons hfit]
        rw [hsize] at hfit ⊢
        by_cases hkept : u.Kept p h0 keeps app.length
        · rw [and_iff_right hkept, ← List.length_append]
          obtain ⟨σ2, h2, f', heq, hdrop', hf', hargs2, hw2, hh2⟩ := hh.turn_kept hw hs ht0 hg hfmt
            (fun hk hne => (hfirst hne).mp hk) ho hdrop hargs (by omega) hkept fuel
          rw [heq]
          refine ih hexp' hper' hdrop' hf' (by omega) hw2 hh2 hargs2 ?_ ?_
          · unfold Roomy at hroomy ⊢
            simp only [List.length_append] at hroomy ⊢
            omega
          · rw [List.append_assoc]
            exact hkeeps
        · refine iff_of_false (fun hfin => ?_) fun h => hkept h.1
          obtain ⟨m', q, b, hr, -⟩ := id hfin
          obtain ⟨σ2, h2, f', hr2, hdrop', hp2, hargs2, hi2⟩ :=
            hh.turn_late hw hs ht0 hg hfmt hfirst ho hdrop hargs (by omega) hkept hr
          obtain ⟨⟨q', b', hq, hb, hle⟩, -⟩ := hp2.loop hg ht0 hfmt hexp' hper' hdrop' hargs2 hr2
          cases hq
          have hlen := hfin.unique hr hb
          have hi := hw.length
          simp only [List.length_append] at hlen hi
          omega
      · rw [inTime_moved hfit]
        constructor
        · rintro ⟨m', q, b, hr, -⟩
          obtain ⟨n, σ2, h2, f', hn, hr2, hdrop', hp2, hargs2, -, hback, hout⟩ :=
            (hw.past hh hs).turn hg ht0 hfmt ho hdrop hargs hr
          have hne : σ2.s ≠ p := by
            intro hσ
            have := (hback hσ).2
            omega
          obtain ⟨hin, hrest⟩ := (hp2.loop hg ht0 hfmt hexp' hper' hdrop' hargs2 hr2).2 hne
          exact ⟨hin, List.forall_mem_cons.mpr ⟨hout hne, hrest⟩⟩
        · rintro ⟨hin, hall⟩
          obtain ⟨h0', -, rest, hbytes⟩ := hfmt
          rw [← hturns] at hall
          have hdrop' : (all.map some ++ some 0 :: rest).drop f = fs.map some ++ some 0 :: rest := by
            rw [List.drop_append_of_le_length (by rw [List.length_map]; exact hf), ← List.map_drop, hdrop]
          rw [List.append_assoc, ← List.append_assoc]
          exact fmtLoop_expand hbytes hin hwhole hper (fun h => h0' (List.mem_of_mem_drop (hdrop ▸ h)))
            (hwhole.outside_of_turns hall) hdrop' hfuel hw hargs hroomy

end Turn

/-! ## appendFmt -/

section AppendFmt

variable {w : World} {x : Nat} {p : Ptr} {h : Sdshdr} {fmt : Src} {fs : List UInt8} {args : List VaArg}
  {bs all : List Byte} {keeps : Bool} {size k : Nat} {us : List Turn}

/-- The format and the arguments that are in the object's own string are read in time. -/
def World.InTime (w : World) (x : Nat) (fmt : Src) (fs : List UInt8) (args : List VaArg) (bs : List Byte) : Prop :=
  ∀ p h, w.data x = some p → w.mem.heap.get p = some h →
    Slice.InTime p h (decide (bs.head? = some (some 0))) fmt fs.length 0 (turns w.mem fs args)

/-- The text is appended; also when the format is in an array that ends with its null term, so that no byte behind it
can be read. -/
def Expanded (w : World) (x : Nat) (fmt : Src) (fs : List UInt8) (args : List VaArg) (bs : List Byte) : Prop :=
  Appends w x fmt args bs ∧ Appends w x (.array fs) args bs

theorem InTime.array (ht : InTime p h keeps fmt size k us) : InTime p h keeps (.array fs) size k us := by
  induction us generalizing k with
  | nil => exact fun hin => absurd hin Bool.false_ne_true
  | cons u us ih =>
    by_cases hfit : k + max u.size 1 ≤ h.sdsavail
    · rw [inTime_cons hfit] at ht ⊢
      exact ⟨ht.1, ih ht.2⟩
    · rw [inTime_moved hfit] at ht ⊢
      exact ⟨rfl, ht.2⟩

theorem inited_self (hw : Wf w) (hd : w.data x = some p) (hg : w.mem.heap.get p = some h) :
    w.initIfNeed x = some w ∧ Inited w x w p h := by
  obtain ⟨w1, p1, h1, hinit, hi⟩ := init_isSome hw (data_lt hd)
  have hsame := hinit
  unfold World.initIfNeed at hsame
  rw [hd] at hsame
  obtain rfl := Option.some.inj hsame
  obtain rfl := Option.some.inj (hd.symm.trans hi.data)
  obtain rfl := Option.some.inj (hg.symm.trans hi.get)
  exact ⟨hinit, hi⟩

/-- A call on an object that has a string returns as the loop does. -/
theorem appends_iff_finished (hw : Wf w) (hd : w.data x = some p) (hg : w.mem.heap.get p = some h)
    (hbytes : fmt.bytes w.mem = some all) : Appends w x fmt args bs ↔
      Finished w.mem p (w.held x ++ bs) (fmtLoop fmt (all.length + 1) ⟨w.mem, p, h.len, args⟩ 0) := by
  obtain ⟨hinit, hi⟩ := inited_self hw hd hg
  refine ⟨?_, appends_of_finished hinit hi hbytes⟩
  rintro ⟨w', hr, -, hholds⟩
  unfold World.appendFmt at hr
  rw [hinit, Option.bind_some, call_eq hd, Option.map_map] at hr
  obtain ⟨⟨m', r⟩, hcall, rfl⟩ := Option.map_eq_some_iff.mp hr
  obtain ⟨h', hh', hs, -⟩ := hw.live x p hd
  obtain rfl := Option.some.inj (hg.symm.trans hh')
  obtain ⟨q, b, rfl, hf, hmv, hsb, -⟩ := sdscatvfmt_cases hw.fails hg hs hcall
  unfold sdscatvfmt at hcall
  rw [hg, Option.bind_some, hbytes, Option.bind_some] at hcall
  refine ⟨m', q, b, hcall, hmv, hf, hsb, ?_⟩
  have hdata : World.data ⟨m', w.slices.set x (some q)⟩ x = some q := by
    rw [data_set (data_lt hd), Function.update_self]
  have hstr : World.string ⟨m', w.slices.set x (some q)⟩ x = some b := by
    rw [string_of_data hdata]
    exact hmv.get_self
  have hholds' : World.Holds ⟨m', w.slices.set x (some q)⟩ x (w.held x ++ bs) := hholds
  unfold World.Holds at hholds'
  rw [hstr] at hholds'
  exact hholds'

theorem appends_iff_inTime (hw : Wf w) (hx : x < w.slices.length) (hfmt : fmt.IsString w.mem fs)
    (he : expand w.mem fs args = some bs) (hroomy : Roomy (w.size x) (bs.length + 1))
    (hper : endsInPercent fs = false) : Appends w x fmt args bs ↔ w.InTime x fmt fs args bs := by
  cases hd : w.data x with
  | none =>
    refine iff_of_true (appends_of_expand hw hx hfmt he (fun p hp => ?_) hroomy hper) fun p h hp => ?_
    · rw [hd] at hp
      cases hp
    · rw [hd] at hp
      cases hp
  | some p =>
    obtain ⟨h, hg, hs, ht⟩ := hw.live x p hd
    obtain ⟨-, hi⟩ := inited_self hw hd hg
    obtain ⟨-, -, rest, hbytes⟩ := id hfmt
    have hheld : w.held x = h.buf.take h.len := hi.held.symm
    have hsize : w.size x = h.len := hi.len.symm
    have hwritten : Written w.mem p ⟨w.mem, p, h.len, args⟩ h (h.buf.take h.len ++ []) :=
      ⟨.refl hg, hw.fails, hs, rfl, (List.append_nil _).symm⟩
    have hhere : Here p h ⟨w.mem, p, h.len, args⟩ h [] := by
      refine ⟨rfl, rfl, rfl, ?_⟩
      rw [List.append_nil]
      exact (List.take_append_drop _ _).symm
    have hfuel : fs.length < (fs.map some ++ some 0 :: rest).length + 1 := by
      simp only [List.length_append, List.length_map]
      omega
    have hroomy' : Roomy (h.buf.take h.len ++ []).length (bs.length + 1) := by
      rwa [List.append_nil, take_len hs, ← hsize]
    have hiff := fmtLoop_iff hs ht hg hfmt (Expands.of_expand he) hper rfl (Nat.zero_le _) hfuel hwritten hhere rfl
      hroomy' (fun _ => by rw [List.nil_append]; exact decide_eq_true_iff)
    rw [List.nil_append, ← hheld] at hiff
    rw [appends_iff_finished hw hd hg hbytes, hiff]
    constructor
    · intro htime p' h' hp' hg'
      obtain rfl := Option.some.inj (hd.symm.trans hp')
      obtain rfl := Option.some.inj (hg.symm.trans hg')
      exact htime
    · intro htime
      exact htime p h hd hg

/-- A single `%` at the end: the array ends before the loop does. -/
theorem not_expanded (h0 : 0 ∉ fs) (hper : endsInPercent fs = true) : ¬ Expanded w x fmt fs args bs := by
  rintro ⟨-, w', hr, -⟩
  obtain ⟨w1, -, hr⟩ := Option.bind_eq_some_iff.mp hr
  obtain ⟨⟨w2, r⟩, hcall, -⟩ := Option.map_eq_some_iff.mp hr
  obtain ⟨p, -, hcall⟩ := Option.bind_eq_some_iff.mp hcall
  obtain ⟨⟨m', r'⟩, hloop, -⟩ := Option.map_eq_some_iff.mp hcall
  obtain ⟨h, -, hloop⟩ := Option.bind_eq_some_iff.mp hloop
  obtain ⟨all, hall, hloop⟩ := Option.bind_eq_some_iff.mp hloop
  obtain rfl := Option.some.inj (Src.array_bytes.symm.trans hall)
  rw [fmtLoop_percent (fun _ => Src.array_bytes) rfl h0 hper] at hloop
  cases hloop

/-- **The expansion of a format** is appended if and only if the format does not end in a single `%`, and what is read
in the object's own string is read in time. -/
theorem appendFmt_expands (hw : w.Reached) (hx : x < w.slices.length) (hfmt : fmt.IsString w.mem fs)
    (he : expand w.mem fs args = some bs) (hroomy : Roomy (w.size x) (bs.length + 1)) :
    Expanded w x fmt fs args bs ↔ endsInPercent fs = false ∧ w.InTime x fmt fs args bs := by
  constructor
  · intro hexp
    have hper : endsInPercent fs = false := by
      by_contra hper
      exact not_expanded hfmt.1 (Bool.not_eq_false _ ▸ hper) hexp
    exact ⟨hper, (appends_iff_inTime hw.wf hx hfmt he hroomy hper).mp hexp.1⟩
  · rintro ⟨hper, htime⟩
    refine ⟨(appends_iff_inTime hw.wf hx hfmt he hroomy hper).mpr htime, ?_⟩
    exact (appends_iff_inTime hw.wf hx (array_isString hfmt.1) he hroomy hper).mpr
      fun p h hp hg => (htime p h hp hg).array

/-- `x%i%%` with the smallest `int`. -/
theorem appendFmt_expands_ab : Expanded World.ab 0 (.array [120, 37, 105, 37, 37]) [120, 37, 105, 37, 37] [.int (-2147483648)]
    ((some 120 :: (decimal (-2147483648)).map some) ++ [some 37]) ↔
      endsInPercent [120, 37, 105, 37, 37] = false ∧ World.ab.InTime 0 (.array [120, 37, 105, 37, 37])
        [120, 37, 105, 37, 37] [.int (-2147483648)] ((some 120 :: (decimal (-2147483648)).map some) ++ [some 37]) :=
  appendFmt_expands World.reached_ab (by decide) (array_isString (by decide)) rfl (by decide +kernel)

/-- The format `%`: nothing that is appended is right. -/
theorem percent_not_expanded : ¬ ∃ bs, Expanded World.ab 0 (.array [37]) [37] [] bs := by
  rintro ⟨bs, h⟩
  exact not_expanded (by decide) rfl h

end AppendFmt

end BeanRaft.Slice
