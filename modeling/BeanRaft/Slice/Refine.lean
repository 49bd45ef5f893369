import BeanRaft.Slice.Owners
import BeanRaft.Slice.Stores

/-!
# BeanRaft.Slice.Refine — appending to a Slice is appending to its bytes

* `call_ok`, `call_bad`: what becomes of a call of `sdscatlen` on the string of an object.  `append_call`: each overload
  of `append` makes such a call.
* `refined_of_stepsOk`: in every run whose steps meet `StepOk`, every append refines concatenation; and in the states of
  these runs the condition on an append is exact.
-/

namespace BeanRaft.Slice

open CInt Lib Lts

/-! ## Sources -/

section Sources

variable {m : Mem} {t : Src} {p off : Nat}

theorem Src.meets_zero : t.meets p off 0 = false := by
  cases t with
  | sds q o =>
    simp only [Src.meets, Nat.add_zero, decide_eq_false_iff_not]
    omega
  | null => rfl
  | noinit => rfl
  | ext bytes => rfl

theorem read_ext {bs l : List Byte} : (Src.ext (bs ++ l)).read m bs.length = some bs := by
  unfold Src.read
  split_ifs with hn
  · rw [List.length_eq_zero_iff.mp hn]
  · show Lib.read (bs ++ l) 0 bs.length = some bs
    unfold Lib.read
    rw [if_pos (by rw [List.length_append]; omega), List.drop_zero, List.take_left']
    rfl

end Sources

section Append

variable {w w' w1 : World} {m m' : Mem} {x p q n : Nat} {r : Option Ptr} {h b : Sdshdr} {t : Src} {bs : List Byte}
  {a : Arg}

/-! ## A call of sdscatlen on the string of an object -/

theorem holds_of_catted {sl : List (Option Ptr)} (hcat : Catted m p h bs m' q) (hle : h.len ≤ h.buf.length)
    (hd : World.data ⟨m', sl⟩ x = some q) : World.Holds ⟨m', sl⟩ x (h.buf.take h.len ++ bs) := by
  obtain ⟨b, -, hmv, -, hlen, htext⟩ := hcat
  have hstr : World.string ⟨m', sl⟩ x = some b := by
    rw [string_of_data hd]
    exact hmv.get_self
  have hl : (h.buf.take h.len ++ bs).length = h.len + bs.length := by
    rw [List.length_append, List.length_take, Nat.min_eq_left hle]
  unfold World.Holds
  rw [hstr]
  dsimp only
  rw [hl]
  exact ⟨hlen, htext⟩

theorem not_holds_of_none (hstr : w.string x = none) (bs : List Byte) : ¬ w.Holds x bs := by
  unfold World.Holds
  rw [hstr]
  exact id

theorem Catted.replaced (hcat : Catted m p h bs m' q) (hle : h.len ≤ h.buf.length) : Replaced m p m' (some q) := by
  obtain ⟨b, hf, hmv, hs, hlen, htext⟩ := hcat
  refine ⟨q, b, rfl, hf, hmv, hs, terminated_of_take (l := h.buf.take h.len ++ bs) ?_ ?_⟩
  · rw [List.length_append, List.length_take, Nat.min_eq_left hle, hlen]
  · rw [hlen]
    exact htext

/-- The condition on a call, on the string itself. -/
def RoomFor (h : Sdshdr) (p : Ptr) (stored : Bool) (t : Src) (n : Nat) : Prop :=
  n ≤ h.sdsavail ∧ t.meets p h.len n = false ∨
    h.sdsavail < n ∧ stored = true ∧ t.inside p = false ∧ Roomy h.len n

theorem call_eq (hd : w.data x = some p) (stored : Bool) (f : Mem → Ptr → Option (Mem × Option Ptr)) :
    w.call x stored f =
      (f w.mem p).map fun (m, r) => (⟨m, if stored then w.slices.set x r else w.slices⟩, r) := by
  unfold World.call
  rw [hd]
  rfl

theorem call_ok {stored : Bool} (hw : Wf w) (hd : w.data x = some p) (hg : w.mem.heap.get p = some h)
    (hread : t.read w.mem n = some bs) (hok : RoomFor h p stored t n) :
    ∃ w' r, w.call x stored (fun m p => sdscatlen m p t n) = some (w', r) ∧ Wf w' ∧
      w'.Holds x (h.buf.take h.len ++ bs) ∧ w'.data x = r ∧ ∀ y, y ≠ x → w'.string y = w.string y := by
  obtain ⟨h', hh', hs, -⟩ := hw.live x p hd
  obtain rfl := Option.some.inj (hg.symm.trans hh')
  have hle : h.len ≤ h.buf.length := Nat.le_of_lt (Nat.lt_of_le_of_lt (Nat.le_add_right _ _) hs.room)
  rw [call_eq hd]
  rcases hok with ⟨hn, hmeet⟩ | ⟨hn, rfl, hin, hroomy⟩
  · obtain ⟨m', he, hcat⟩ := sdscatlen_stay hw.fails hg hs hn hmeet hread
    have hrep := hcat.replaced hle
    have hwf := hw.replaced hd hrep
    have hset : World.data ⟨m', w.slices.set x (some p)⟩ = w.data := by
      rw [data_set (data_lt hd), ← hd, Function.update_eq_self]
    rw [he]
    cases stored with
    | true =>
      have hdata : World.data ⟨m', w.slices.set x (some p)⟩ x = some p := by rw [hset, hd]
      exact ⟨_, _, rfl, hwf, holds_of_catted hcat hle hdata, hdata, fun y hy =>
        string_replaced hw hd hrep (congrFun hset y) rfl hy⟩
    | false =>
      exact ⟨_, _, rfl, hwf.mono rfl fun y q hy => by rw [hset]; exact hy, holds_of_catted hcat hle hd, hd, fun y hy =>
        string_replaced hw hd hrep rfl rfl hy⟩
  · obtain ⟨m', q, he, -, hcat⟩ := sdscatlen_move hw.fails hg hs hn hin hroomy hread
    have hdata : World.data ⟨m', w.slices.set x (some q)⟩ x = some q := by
      rw [data_set (data_lt hd), Function.update_self]
    rw [he]
    refine ⟨_, _, rfl, hw.replaced hd (hcat.replaced hle), holds_of_catted hcat hle hdata, hdata, fun y hy => ?_⟩
    refine string_replaced hw hd (hcat.replaced hle) ?_ rfl hy
    rw [if_pos rfl, data_set (data_lt hd), Function.update_of_ne hy]

/-- `data` is the pointer to a block that was given up. -/
def Lost (w : World) (x : Nat) : Prop := ∃ p, w.data x = some p ∧ w.mem.heap.get p = none

theorem Lost.not_holds (h : Lost w x) (bs : List Byte) : ¬ w.Holds x bs := by
  obtain ⟨p, hd, hdead⟩ := h
  refine not_holds_of_none ?_ bs
  rw [string_of_data hd]
  exact hdead

/-- Without it the call runs into undefined behaviour, or leaves `data` at the old string. -/
theorem call_bad {stored : Bool} (hw : Wf w) (hd : w.data x = some p) (hg : w.mem.heap.get p = some h)
    (hread : t.read w.mem n = some bs) (hno : ¬ RoomFor h p stored t n)
    (hr : w.call x stored (fun m p => sdscatlen m p t n) = some (w', r)) : Lost w' x := by
  obtain ⟨h', hh', hs, -⟩ := hw.live x p hd
  obtain rfl := Option.some.inj (hg.symm.trans hh')
  rw [call_eq hd] at hr
  by_cases hn : n ≤ h.sdsavail
  · have hmeet : t.meets p h.len n = true := by
      by_contra hfalse
      exact hno (.inl ⟨hn, Bool.eq_false_iff.mpr hfalse⟩)
    rw [sdscatlen_meets hg hn hmeet] at hr
    simp at hr
  · have hlt := Nat.lt_of_not_le hn
    by_cases hlost : t.inside p = true ∨ ¬ Roomy h.len n
    · rw [sdscatlen_lost hw.fails hg hs hlt hlost] at hr
      simp at hr
    · obtain ⟨hin, hroomy⟩ := not_or.mp hlost
      have hin' := Bool.eq_false_iff.mpr hin
      have hroomy' := not_not.mp hroomy
      obtain ⟨m', q, he, hqp, b, -, hmv, -⟩ := sdscatlen_move hw.fails hg hs hlt hin' hroomy' hread
      cases stored with
      | true => exact absurd (.inr ⟨hlt, rfl, hin', hroomy'⟩) hno
      | false =>
        rw [he] at hr
        cases hr
        exact ⟨p, hd, hmv.dead hqp⟩

/-! ## The overloads of append -/

/-- The bytes that an overload of `append` passes to `sdscatlen`. -/
def Arg.text (w : World) : Arg → Option (Src × Nat)
  | .slice s => (w.data s).bind fun q => (w.mem.heap.get q).map fun h => (.sds q 0, h.len)
  | .str s => some (.ext (s.map some ++ [some 0]), s.length)
  | .cstr s => (s.strlen w.mem).map fun n => (s, n)
  | .bytes s len => some (s, uint64 len.toInt)
  | .chr s => some (.ext [some s], 1)
  | .num number => ll2string (List.replicate 64 none) 64 number |>.map fun (buffer, n) => (.ext buffer, n)

/-- Each overload comes down to a call of `sdscatlen`. -/
theorem append_eq (hnull : a.isNull w = false) : w.append x a = (w.initIfNeed x).bind fun w => (a.text w).bind fun tn =>
    (w.call x a.stored fun m p => sdscatlen m p tn.1 tn.2).map fun (w, r) => (w, some r) := by
  cases a with
  | slice s =>
    have htext : ∀ w, (Arg.slice s).text w =
      (w.data s).bind fun q => (w.mem.heap.get q).map fun h => (.sds q 0, h.len) := fun _ => rfl
    obtain ⟨q, hq⟩ := Option.isSome_iff_exists.mp (Option.isNone_eq_false_iff.mp hnull)
    show w.appendSlice x s = _
    unfold World.appendSlice
    rw [hq]
    simp only [htext, Option.bind_assoc, Option.bind_map]
    rfl
  | cstr s =>
    have htext : ∀ w, (Arg.cstr s).text w = (s.strlen w.mem).map fun n => (s, n) := fun _ => rfl
    show w.appendCStr x s = _
    unfold World.appendCStr World.call sdscat
    congr 1
    funext w
    rw [htext]
    dsimp only
    cases w.data x <;> cases s.strlen w.mem <;> rfl
  | num number =>
    have htext : ∀ w, (Arg.num number).text w =
      (ll2string (List.replicate 64 none) 64 number).map fun (buffer, n) => (.ext buffer, n) := fun _ => rfl
    show w.appendLongLong x number = _
    unfold World.appendLongLong
    simp only [htext, Option.bind_map]
    rfl
  | str | bytes | chr => rfl

/-- The overload comes down to a call of `sdscatlen` with the source `t`, on an object that has a string in `w1`. -/
structure CallsWith (w : World) (x : Nat) (a : Arg) (w1 : World) (bs : List Byte) (t : Src) : Prop where
  eq : w.append x a = (w1.call x a.stored fun m p => sdscatlen m p t bs.length).map fun (w, r) => (w, some r)
  read : t.read w.mem bs.length = some bs
  inside : ∀ q, t.inside q = (a.source w).inside q
  meets : ∀ q off n, t.meets q off n = (a.source w).meets q off n

theorem calls_of_text (hnull : a.isNull w = false) (hinit : w.initIfNeed x = some w1)
    (htext : a.text w1 = some (t, bs.length)) (hread : t.read w.mem bs.length = some bs)
    (hinside : ∀ q, t.inside q = (a.source w).inside q) (hmeets : ∀ q off n, t.meets q off n = (a.source w).meets q off n) :
    CallsWith w x a w1 bs t := by
  refine ⟨?_, hread, hinside, hmeets⟩
  rw [append_eq hnull, hinit, Option.bind_some, htext, Option.bind_some]

/-- The string of another object is still there after `_initIfNeed`. -/
theorem Inited.string_of {s : Nat} (hi : Inited w x w1 p h) (hd : w.data s = some q) (hq : w.mem.heap.get q = some b) :
    w1.data s = some q ∧ w1.mem.heap.get q = some b := by
  refine ⟨?_, by rw [hi.live q (by rw [hq]; rfl), hq]⟩
  by_cases hsx : s = x
  · rw [hsx] at hd ⊢
    rcases hi.place with hp | ⟨hnone, -⟩
    · rw [hi.data, ← hp, hd]
    · rw [hnone] at hd
      simp at hd
  · rw [hi.other s hsx, hd]

/-- The bytes of a string can be read. -/
theorem read_string (hq : m.heap.get q = some b) (hs : Sound b) :
    (Src.sds q 0).read m b.len = some (b.buf.take b.len) := by
  have hroom := hs.room
  by_cases h0 : b.len = 0
  · rw [h0]
    rfl
  · rw [read_sds hq (Nat.pos_of_ne_zero h0), Lib.read, if_pos (by omega), List.drop_zero]

theorem appendSlice_calls {s : Nat} (hw : Wf w) (hd : w.data s = some q) (hinit : w.initIfNeed x = some w1)
    (hi : Inited w x w1 p h) : CallsWith w x (.slice s) w1 (w.held s) (.sds q 0) := by
  obtain ⟨b, hq, hsound, -⟩ := hw.live s q hd
  have hstr : w.string s = some b := by rw [string_of_data hd, hq]
  have hheld : w.held s = b.buf.take b.len := by simp [World.held, hstr]
  have hroom := hsound.room
  have hlen : (w.held s).length = b.len := by
    rw [hheld, List.length_take]
    omega
  have hsource : (Arg.slice s).source w = .sds q 0 := by
    unfold Arg.source
    dsimp only
    rw [hd]
  refine calls_of_text (Option.isNone_eq_false_iff.mpr (by rw [hd]; rfl)) hinit ?_ ?_ (fun q' => by rw [hsource])
    fun q' off n => by rw [hsource]
  · obtain ⟨hd1, hq1⟩ := hi.string_of hd hq
    show (w1.data s).bind _ = _
    rw [hd1, Option.bind_some, hq1, hlen]
    rfl
  · rw [hlen, hheld]
    exact read_string hq hsound

theorem appendCStr_calls {s : Src} (hb : (Arg.cstr s).appended w = some bs) (hinit : w.initIfNeed x = some w1)
    (hi : Inited w x w1 p h) : CallsWith w x (.cstr s) w1 bs s := by
  obtain ⟨n, hlen, hread⟩ := Option.bind_eq_some_iff.mp hb
  obtain rfl := Src.read_length hread
  refine calls_of_text rfl hinit ?_ hread (fun _ => rfl) fun _ _ _ => rfl
  show (s.strlen w1.mem).map _ = _
  rw [Src.strlen_mono hi.live hlen]
  rfl

theorem appendBytes_calls {s : Src} {len : Int32} (hb : (Arg.bytes s len).appended w = some bs)
    (hinit : w.initIfNeed x = some w1) : CallsWith w x (.bytes s len) w1 bs s := by
  unfold Arg.appended at hb
  dsimp only at hb
  split_ifs at hb with hpos
  have hlen := Src.read_length hb
  have hlt := len.toInt_lt
  refine calls_of_text rfl hinit ?_ (by rw [hlen]; exact hb) (fun _ => rfl) fun _ _ _ => rfl
  show some (s, uint64 len.toInt) = _
  rw [hlen, uint64_of_range hpos (by omega)]

theorem appendLongLong_calls {number : Int64} (hinit : w.initIfNeed x = some w1) :
    ∃ t, CallsWith w x (.num number) w1 ((decimal number.toInt).map some) t := by
  have h20 := decimal_int64_length number
  have hroom : (decimal number.toInt).length < (List.replicate 64 (none : Byte)).length := by
    rw [List.length_replicate]
    omega
  have hll := ll2string_eq hroom
  rw [List.length_replicate] at hll
  refine ⟨.ext ((decimal number.toInt).map some ++ some 0 ::
    (List.replicate 64 none).drop ((decimal number.toInt).length + 1)),
    calls_of_text rfl hinit ?_ read_ext (fun _ => rfl) fun _ _ _ => rfl⟩
  show (ll2string _ 64 number).map _ = _
  rw [hll, List.length_map]
  rfl

/-- Each overload makes such a call. -/
theorem append_call (hw : Wf w) (hb : a.appended w = some bs) (hnull : a.isNull w = false)
    (hinit : w.initIfNeed x = some w1) (hi : Inited w x w1 p h) : ∃ t, CallsWith w x a w1 bs t := by
  cases a with
  | slice s =>
    unfold Arg.appended at hb
    dsimp only at hb
    split_ifs at hb with hs
    obtain rfl := Option.some.inj hb
    obtain ⟨q, hd⟩ := Option.isSome_iff_exists.mp (Option.isNone_eq_false_iff.mp hnull)
    exact ⟨.sds q 0, appendSlice_calls hw hd hinit hi⟩
  | str s =>
    obtain rfl := Option.some.inj hb
    refine ⟨.ext (s.map some ++ [some 0]), calls_of_text rfl hinit ?_ read_ext (fun _ => rfl) fun _ _ _ => rfl⟩
    rw [List.length_map]
    rfl
  | cstr s => exact ⟨s, appendCStr_calls hb hinit hi⟩
  | bytes s len => exact ⟨s, appendBytes_calls hb hinit⟩
  | chr s =>
    obtain rfl := Option.some.inj hb
    exact ⟨.ext [some s], calls_of_text rfl hinit rfl (read_ext (l := [])) (fun _ => rfl) fun _ _ _ => rfl⟩
  | num number =>
    obtain rfl := Option.some.inj hb
    exact appendLongLong_calls hinit

/-- The condition on the call is the one on the string that the object has after `_initIfNeed`. -/
theorem callOk_iff (hi : Inited w x w1 p h) (hnull : a.isNull w = false) (hc : CallsWith w x a w1 bs t) :
    CallOk w x a bs.length ↔ RoomFor h p a.stored t bs.length := by
  have hover : w.overlaps x (a.source w) bs.length = t.meets p h.len bs.length := by
    unfold World.overlaps
    rw [hi.len, hc.meets]
    rcases hi.place with hp | ⟨hnone, hdead⟩
    · rw [hp]
    · rw [hnone]
      by_cases h0 : bs.length = 0
      · rw [h0, Src.meets_zero]
      · rw [← hc.meets, Src.meets_of_inside (Src.inside_dead hdead (Nat.pos_of_ne_zero h0) hc.read)]
  have howns : w.avail x < bs.length → w.owns x (a.source w) = t.inside p := by
    intro hn
    unfold World.owns
    rcases hi.place with hp | ⟨hnone, hdead⟩
    · rw [hp, hc.inside]
    · rw [hnone, Src.inside_dead hdead (Nat.zero_lt_of_lt hn) hc.read]
  unfold CallOk RoomFor
  rw [hover, ← hi.avail, ← hi.len]
  constructor
  · rintro ⟨hstay | ⟨hn, hst, how, hroomy⟩, -⟩
    · exact .inl hstay
    · exact .inr ⟨hn, hst, by rw [← howns (hi.avail ▸ hn)]; exact how, hroomy⟩
  · rintro (hstay | ⟨hn, hst, hown, hroomy⟩)
    · exact ⟨.inl hstay, fun _ => hnull⟩
    · exact ⟨.inr ⟨hn, hst, by rw [howns (hi.avail ▸ hn)]; exact hown, hroomy⟩, fun _ => hnull⟩

/-- An object holds the bytes of its string. -/
theorem holds_held (hw : Wf w) (hd : w.data x = some p) : w.Holds x (w.held x) := by
  obtain ⟨h, hh, hs, ht⟩ := hw.live x p hd
  have hstr : w.string x = some h := by rw [string_of_data hd, hh]
  have hheld : w.held x = h.buf.take h.len := by simp [World.held, hstr]
  have hroom := hs.room
  have hlen : (h.buf.take h.len).length = h.len := by
    rw [List.length_take]
    omega
  unfold World.Holds
  rw [hstr]
  dsimp only
  rw [hheld, hlen, List.take_add_one, ht]
  exact ⟨rfl, rfl⟩

/-- A NULL Slice is appended: nothing is done. -/
theorem append_null (ha : a.isNull w = true) (hb : a.appended w = some bs) :
    w.append x a = some (w, none) ∧ bs = [] ∧ (CallOk w x a 0 ↔ w.data x ≠ none) := by
  cases a with
  | slice s =>
    have hd : w.data s = none := by simpa [Arg.isNull] using ha
    have hstr : w.string s = none := by
      unfold World.string
      rw [hd]
      rfl
    unfold Arg.appended at hb
    dsimp only at hb
    split_ifs at hb
    obtain rfl := Option.some.inj hb
    refine ⟨?_, by simp [World.held, hstr], fun h hnone => ?_, fun h => ⟨.inl ⟨Nat.zero_le _, ?_⟩, fun hnone => ?_⟩⟩
    · show w.appendSlice x s = _
      unfold World.appendSlice
      rw [hd]
    · rw [h.2 hnone] at ha
      simp at ha
    · unfold World.overlaps
      split
      · rfl
      · exact Src.meets_zero
    · exact absurd hnone h
  | str s => cases ha
  | cstr s => cases ha
  | bytes s len => cases ha
  | chr s => cases ha
  | num number => cases ha

/-- **The outcome of an append**: it refines concatenation if and only if the condition is met. -/
theorem append_outcome (hw : Wf w) (hx : x < w.slices.length) (hb : a.appended w = some bs) :
    (CallOk w x a bs.length → ∃ w' r, w.append x a = some (w', r) ∧ Wf w' ∧ w'.Holds x (w.held x ++ bs) ∧
      (∀ r', r = some r' → w'.data x = r') ∧ ∀ y, y ≠ x → w'.string y = w.string y) ∧
    (¬ CallOk w x a bs.length → ∀ w' r, w.append x a = some (w', r) → ¬ w'.Holds x (w.held x ++ bs) ∧
      (a.isNull w = false → Lost w' x)) := by
  by_cases hnull : a.isNull w = true
  · obtain ⟨he, rfl, hiff⟩ := append_null (x := x) hnull hb
    rw [List.append_nil]
    refine ⟨fun hok => ?_, fun hno w' r hr => ?_⟩
    · obtain ⟨p, hd⟩ := Option.ne_none_iff_exists'.mp (hiff.mp hok)
      exact ⟨w, none, he, hw, holds_held hw hd, fun r' hr' => absurd hr' (Option.some_ne_none r').symm,
        fun _ _ => rfl⟩
    · rw [he] at hr
      cases hr
      have hd : w.data x = none := by
        by_contra hne
        exact hno (hiff.mpr hne)
      refine ⟨not_holds_of_none ?_ _, fun hfalse => absurd (hnull.symm.trans hfalse) (by decide)⟩
      unfold World.string
      rw [hd]
      rfl
  · have hnull' := Bool.eq_false_iff.mpr hnull
    obtain ⟨w1, p, h, hinit, hi⟩ := init_isSome hw hx
    obtain ⟨t, hc⟩ := append_call hw hb hnull' hinit hi
    have hread1 := Src.read_mono hi.live hc.read
    rw [hc.eq, callOk_iff hi hnull' hc, ← hi.held]
    refine ⟨fun hok => ?_, fun hno w' r hr => ?_⟩
    · obtain ⟨w', r, hcall, hwf, hholds, hdata, hframe⟩ := call_ok hi.wf hi.data hi.get hread1 hok
      rw [hcall]
      exact ⟨w', some r, rfl, hwf, hholds, fun r' hr' => by rw [hdata, Option.some.inj hr'],
        fun y hy => (hframe y hy).trans (hi.string_other hw hy)⟩
    · obtain ⟨⟨w2, r2⟩, hcall, he2⟩ := Option.map_eq_some_iff.mp hr
      cases he2
      have hlost := call_bad hi.wf hi.data hi.get hread1 hno hcall
      exact ⟨hlost.not_holds _, fun _ => hlost⟩

end Append

/-! ## Runs -/

/-- The objects are well-formed, and the last append has worked. -/
def Kept : State → Prop
  | .undefined => False
  | .running w last => Wf w ∧ Refined (.running w last)

section Runs

variable {s s' : State} {w : World} {last : Option Call} {x : Nat} {a : Arg}

/-- One append, with the condition and without it. -/
theorem append_step (hw : Wf w) (hr : slices.step (.running w last) (.append x a) = some s') :
    (StepOk (.running w last) (.append x a) → Kept s') ∧ (¬ StepOk (.running w last) (.append x a) → ¬ Refined s') := by
  change (if x < w.slices.length then _ else none) = some s' at hr
  split_ifs at hr with hx
  obtain ⟨bs, hb, he⟩ := Option.map_eq_some_iff.mp hr
  obtain ⟨hgood, hbad⟩ := append_outcome hw hx hb
  refine ⟨fun hok => ?_, fun hno => ?_⟩
  · obtain ⟨w', r, hcall, hwf, hholds, hdata, -⟩ := hgood (hok bs hb)
    rw [hcall] at he
    rw [← he]
    exact ⟨hwf, hholds, hdata⟩
  · have hno' : ¬ CallOk w x a bs.length := by
      intro hok
      refine hno fun bs' hb' => ?_
      rw [hb] at hb'
      rwa [← Option.some.inj hb']
    rw [← he]
    cases hcall : w.append x a with
    | none => exact id
    | some o =>
      intro href
      exact (hbad hno' o.1 o.2 hcall).1 href.1

theorem kept_step {act : Act} (hs : Kept s) (hok : StepOk s act) (hr : slices.step s act = some s') : Kept s' := by
  cases s with
  | undefined => exact hs.elim
  | running w last =>
    have hother : (w.other act).map (.running · none) = some s' → Kept s' := by
      intro h
      obtain ⟨w', ho, rfl⟩ := Option.map_eq_some_iff.mp h
      exact ⟨wf_other hs.1 hok ho, trivial⟩
    cases act with
    | append x a => exact (append_step hs.1 hr).1 hok
    | default => exact hother hr
    | ofCStr t => exact hother hr
    | ofBytes t len => exact hother hr
    | copy raw t => exact hother hr
    | move raw t => exact hother hr
    | appendFmt x fmt args => exact hother hr
    | clear x => exact hother hr

theorem kept_start : Kept .start := by
  refine ⟨⟨rfl, fun x p hx => ?_, fun x y p hx _ => ?_⟩, trivial⟩
  · cases hx
  · cases hx

theorem refined_of_kept (hs : Kept s) : Refined s := by
  cases s with
  | undefined => exact hs
  | running w last => exact hs.2

/-- **Appends refine concatenation** in every state of a run whose steps meet `StepOk`; and after such a run the
condition on the next append is exact. -/
theorem refined_of_stepsOk {acts : List Act} (h : StepsOk slices StepOk .start acts) :
    Always slices Refined .start acts ∧ ∀ s x a s', slices.exec .start acts = some s →
      slices.step s (.append x a) = some s' → (Refined s' ↔ StepOk s (.append x a)) := by
  have hstep : ∀ s act s', Kept s → StepOk s act → slices.step s act = some s' → Kept s' :=
    fun _ _ _ hk hok hr => kept_step hk hok hr
  refine ⟨always_of_stepsOk (fun s hk => refined_of_kept hk) hstep kept_start h, fun s x a s' hs hr => ?_⟩
  have hkept : Kept s :=
    (always_of_stepsOk (P := Kept) (fun _ hk => hk) hstep kept_start h).exec hs
  cases s with
  | undefined => exact hkept.elim
  | running w last =>
    obtain ⟨hgood, hbad⟩ := append_step hkept.1 hr
    refine ⟨fun href => ?_, fun hok => refined_of_kept (hgood hok)⟩
    by_contra hno
    exact hbad hno href

/-- A string leaves room for a character; an append of 20 bytes moves it, and a copy and an append to itself follow. -/
def roomyRun : List Act :=
  [.default, .append 0 (.str [97, 98]), .append 0 (.chr 99), .append 0 (.num 7),
    .append 0 (.bytes (.ext (List.replicate 20 (some 120))) 20), .copy none 0, .append 1 (.slice 0), .clear 0,
    .append 0 (.cstr (.sds 4 22)), .append 1 (.slice 1)]

theorem roomyRun_refined : Always slices Refined .start roomyRun :=
  (refined_of_stepsOk (by decide +kernel)).1

/-- A character appended to a new Slice is lost: the string moves, and `data` stays at the old block. -/
theorem charRun_not_refined : ¬ Always slices Refined .start [.default, .append 0 (.chr 97)] := by
  intro h
  have hrun : (slices.exec .start [.default, .append 0 (.chr 97)]).map (fun s => decide (Refined s)) = some false := by
    decide +kernel
  obtain ⟨s, hs, hv⟩ := Option.map_eq_some_iff.mp hrun
  exact of_decide_eq_false hv (h.exec hs)

end Runs

end BeanRaft.Slice
