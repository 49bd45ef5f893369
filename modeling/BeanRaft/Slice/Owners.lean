import BeanRaft.Slice.Objects

/-!
# BeanRaft.Slice.Owners — the objects own their strings

`Wf`: the objects have distinct live strings, each sound and terminated.  `Wf.fresh`, `Wf.replaced`, `Wf.freed`,
`Wf.moved`: what may happen to the string of one object.  `wf_other`: the constructors on zeroed storage, `appendFmt`
and `clear` keep this.
-/

namespace BeanRaft.Slice

open CInt Lib Lts

/-- The objects own distinct live strings. -/
structure Wf (w : World) : Prop where
  fails : w.mem.fails = []
  live : ∀ x p, w.data x = some p → ∃ h, w.mem.heap.get p = some h ∧ Sound h ∧ Terminated h
  distinct : ∀ x y p, w.data x = some p → w.data y = some p → x = y

section Objects

variable {w w' : World} {m m' : Mem} {x y p q n : Nat} {r : Option Ptr} {h b : Sdshdr}

theorem data_set (hx : x < w.slices.length) :
    World.data ⟨m, w.slices.set x r⟩ = Function.update w.data x r := by
  funext y
  by_cases hy : y = x
  · subst hy
    rw [Function.update_self]
    simp [World.data, hx]
  · rw [Function.update_of_ne hy]
    simp only [World.data]
    rw [List.getElem?_set_ne (Ne.symm hy)]

theorem data_of_le (hx : w.slices.length ≤ x) : w.data x = none := by
  unfold World.data
  rw [List.getElem?_eq_none hx]
  rfl

theorem data_lt (hx : w.data x = some p) : x < w.slices.length := by
  by_contra hle
  rw [data_of_le (Nat.le_of_not_lt hle)] at hx
  cases hx

theorem data_push : World.data ⟨m, w.slices ++ [r]⟩ = Function.update w.data w.slices.length r := by
  funext y
  rcases Nat.lt_trichotomy y w.slices.length with hlt | heq | hgt
  · rw [Function.update_of_ne (Nat.ne_of_lt hlt)]
    simp only [World.data]
    rw [List.getElem?_append_left hlt]
  · rw [heq, Function.update_self]
    simp [World.data]
  · rw [Function.update_of_ne (Nat.ne_of_gt hgt), data_of_le (Nat.le_of_lt hgt)]
    refine data_of_le ?_
    show (w.slices ++ [r]).length ≤ y
    rw [List.length_append]
    exact hgt

theorem string_of_data (hx : w.data x = some p) : w.string x = w.mem.heap.get p := by
  unfold World.string
  rw [hx]
  rfl

/-! ## What keeps the objects well-formed -/

/-- Some pointers are dropped. -/
theorem Wf.mono (hw : Wf w) (hm : w'.mem = w.mem) (hd : ∀ y q, w'.data y = some q → w.data y = some q) : Wf w' := by
  refine ⟨by rw [hm]; exact hw.fails, fun y q hy => ?_, fun y z q hy hz => hw.distinct y z q (hd y q hy) (hd z q hz)⟩
  rw [hm]
  exact hw.live y q (hd y q hy)

theorem distinct_update (hd : w'.data = Function.update w.data x r)
    (hdis : ∀ y z p, w.data y = some p → w.data z = some p → y = z)
    (hne : ∀ y p, y ≠ x → w.data y = some p → r ≠ some p) {y z p : Nat} (hy : w'.data y = some p)
    (hz : w'.data z = some p) : y = z := by
  rw [hd] at hy hz
  by_cases hyx : y = x
  · by_cases hzx : z = x
    · rw [hyx, hzx]
    · rw [hyx, Function.update_self] at hy
      rw [Function.update_of_ne hzx] at hz
      exact absurd hy (hne z p hzx hz)
  · rw [Function.update_of_ne hyx] at hy
    by_cases hzx : z = x
    · rw [hzx, Function.update_self] at hz
      exact absurd hz (hne y p hyx hy)
    · rw [Function.update_of_ne hzx] at hz
      exact hdis y z p hy hz

/-- The string of the object `x` is new, or moved, and those of the others stay. -/
theorem Wf.update (hw : Wf w) (hd : w'.data = Function.update w.data x (some q)) (hf : w'.mem.fails = [])
    (hq : w'.mem.heap.get q = some b) (hs : Sound b) (ht : Terminated b)
    (hother : ∀ y p, y ≠ x → w.data y = some p → w'.mem.heap.get p = w.mem.heap.get p ∧ p ≠ q) : Wf w' := by
  refine ⟨hf, fun y p hy => ?_, fun y z p hy hz => distinct_update hd hw.distinct ?_ hy hz⟩
  · rw [hd] at hy
    by_cases hyx : y = x
    · rw [hyx, Function.update_self] at hy
      obtain rfl := Option.some.inj hy
      exact ⟨b, hq, hs, ht⟩
    · rw [Function.update_of_ne hyx] at hy
      rw [(hother y p hyx hy).1]
      exact hw.live y p hy
  · intro y p hyx hy he
    exact (hother y p hyx hy).2 (Option.some.inj he).symm

/-- An object without a string gets a new one. -/
theorem Wf.fresh (hw : Wf w) (hq : w.mem.heap.get q = none) (hf : w'.mem.fails = [])
    (hget : w'.mem.heap.get = Function.update w.mem.heap.get q (some b)) (hs : Sound b) (ht : Terminated b)
    (hd : w'.data = Function.update w.data x (some q)) : Wf w' := by
  refine hw.update hd hf (by rw [hget, Function.update_self]) hs ht fun y p _ hy => ?_
  have hne : p ≠ q := by
    rintro rfl
    obtain ⟨h, hh, -, -⟩ := hw.live y p hy
    rw [hq] at hh
    cases hh
  exact ⟨by rw [hget, Function.update_of_ne hne], hne⟩

/-- The string of an object is replaced. -/
theorem Wf.replaced (hw : Wf w) (hx : w.data x = some p) (hr : Replaced w.mem p m' r) :
    Wf ⟨m', w.slices.set x r⟩ := by
  obtain ⟨q, b, rfl, hf, hmv, hs, ht⟩ := hr
  refine hw.update (data_set (data_lt hx)) hf hmv.get_self hs ht fun y p' hyx hy => ?_
  obtain ⟨h, hh, -, -⟩ := hw.live y p' hy
  refine hmv.get_other ?_ (by rw [hh]; rfl)
  rintro rfl
  exact hyx (hw.distinct y x p' hy hx)

/-- The string of an object is freed. -/
theorem Wf.freed (hw : Wf w) (hx : w.data x = some p) (hm : w.mem.sdsfree (some p) = some m') :
    Wf ⟨m', w.slices.set x none⟩ := by
  obtain ⟨-, hf, hget⟩ := sdsfree_some hm
  have hd : World.data ⟨m', w.slices.set x none⟩ = Function.update w.data x none := data_set (data_lt hx)
  have hold : ∀ y q, World.data ⟨m', w.slices.set x none⟩ y = some q → y ≠ x ∧ w.data y = some q := by
    intro y q hy
    rw [hd] at hy
    by_cases hyx : y = x
    · rw [hyx, Function.update_self] at hy
      cases hy
    · rw [Function.update_of_ne hyx] at hy
      exact ⟨hyx, hy⟩
  refine ⟨hf.trans hw.fails, fun y q hy => ?_, fun y z q hy hz => hw.distinct y z q (hold y q hy).2 (hold z q hz).2⟩
  obtain ⟨hyx, hy'⟩ := hold y q hy
  have hqp : q ≠ p := by
    rintro rfl
    exact hyx (hw.distinct y x q hy' hx)
  show ∃ h, m'.heap.get q = some h ∧ _
  rw [hget, Function.update_of_ne hqp]
  exact hw.live y q hy'

/-- The string of the object `s` goes to the object `x`. -/
theorem Wf.transfer {s : Nat} (hw : Wf w) (hm : w'.mem = w.mem)
    (hd : w'.data = Function.update (Function.update w.data s none) x (w.data s)) : Wf w' := by
  -- the place that held a pointer before the move
  have hold : ∀ y q, w'.data y = some q → y = x ∧ w.data s = some q ∨ y ≠ s ∧ w.data y = some q := by
    intro y q hy
    rw [hd] at hy
    by_cases hyx : y = x
    · rw [hyx, Function.update_self] at hy
      exact .inl ⟨hyx, hy⟩
    · rw [Function.update_of_ne hyx] at hy
      by_cases hys : y = s
      · rw [hys, Function.update_self] at hy
        cases hy
      · rw [Function.update_of_ne hys] at hy
        exact .inr ⟨hys, hy⟩
  refine ⟨by rw [hm]; exact hw.fails, fun y q hy => ?_, fun y z q hy hz => ?_⟩
  · rw [hm]
    rcases hold y q hy with ⟨-, hq⟩ | ⟨-, hq⟩
    · exact hw.live s q hq
    · exact hw.live y q hq
  · rcases hold y q hy with ⟨hyx, hq⟩ | ⟨hys, hq⟩
    · rcases hold z q hz with ⟨hzx, -⟩ | ⟨hzs, hq'⟩
      · rw [hyx, hzx]
      · exact absurd (hw.distinct z s q hq' hq) hzs
    · rcases hold z q hz with ⟨-, hq'⟩ | ⟨-, hq'⟩
      · exact absurd (hw.distinct y s q hq hq') hys
      · exact hw.distinct y z q hq hq'

theorem data_moved (hx : x < w.slices.length) : World.data ⟨m, w.slices.set x none ++ [w.data x]⟩ =
    Function.update (Function.update w.data x none) w.slices.length (w.data x) := by
  rw [← data_set (m := m) hx]
  have hlen : (w.slices.set x none).length = w.slices.length := List.length_set
  rw [← hlen]
  exact data_push (w := ⟨m, w.slices.set x none⟩)

/-- The string of an object goes to a new one. -/
theorem Wf.moved (hw : Wf w) (hx : x < w.slices.length) :
    Wf ⟨w.mem, w.slices.set x none ++ [w.data x]⟩ := hw.transfer rfl (data_moved hx)

/-! ## What the others hold -/

/-- An object whose pointer and block stay has the same string. -/
theorem string_congr (hd : w'.data y = w.data y)
    (hget : ∀ p, w.data y = some p → w'.mem.heap.get p = w.mem.heap.get p) : w'.string y = w.string y := by
  unfold World.string
  rw [hd]
  cases hy : w.data y with
  | none => rfl
  | some p => exact hget p hy

theorem string_replaced (hw : Wf w) (hx : w.data x = some p) (hr : Replaced w.mem p m' r) (hd : w'.data y = w.data y)
    (hm : w'.mem = m') (hy : y ≠ x) : w'.string y = w.string y := by
  obtain ⟨q, b, -, -, hmv, -⟩ := hr
  refine string_congr hd fun p' hp' => ?_
  obtain ⟨h, hh, -, -⟩ := hw.live y p' hp'
  rw [hm]
  refine (hmv.get_other ?_ (by rw [hh]; rfl)).1
  rintro rfl
  exact hy (hw.distinct y x p' hp' hx)

theorem string_fresh (hw : Wf w) (hq : w.mem.heap.get q = none)
    (hget : w'.mem.heap.get = Function.update w.mem.heap.get q (some b)) (hd : w'.data y = w.data y) :
    w'.string y = w.string y := by
  refine string_congr hd fun p hp => ?_
  obtain ⟨h, hh, -, -⟩ := hw.live y p hp
  rw [hget, Function.update_of_ne]
  rintro rfl
  rw [hq] at hh
  cases hh

theorem string_freed (hget : w'.mem.heap.get = Function.update w.mem.heap.get p none) (hd : w'.data y = w.data y)
    (hp : w.data y ≠ some p) : w'.string y = w.string y := by
  refine string_congr hd fun q hq => ?_
  rw [hget, Function.update_of_ne]
  rintro rfl
  exact hp hq

/-! ## The steps other than append -/

theorem wf_construct (hw : Wf w) {t : Src} (hr : w.construct (sdsnewlen w.mem t n) = some w') : Wf w' := by
  obtain ⟨⟨m1, r⟩, hnew, rfl⟩ := Option.map_eq_some_iff.mp hr
  obtain ⟨q, b, rfl, hq, hf, hget, hs, ht, -⟩ := sdsnewlen_cases hw.fails hnew
  exact hw.fresh hq hf hget hs ht data_push

/-- After `_initIfNeed` the object has a string with the same bytes and the same free space. -/
structure Inited (w : World) (x : Nat) (w' : World) (p : Ptr) (h : Sdshdr) : Prop where
  wf : Wf w'
  data : w'.data x = some p
  get : w'.mem.heap.get p = some h
  len : h.len = w.size x
  avail : h.sdsavail = w.avail x
  held : h.buf.take h.len = w.held x
  length : w'.slices.length = w.slices.length
  other : ∀ y, y ≠ x → w'.data y = w.data y
  live : ∀ q, (w.mem.heap.get q).isSome = true → w'.mem.heap.get q = w.mem.heap.get q
  place : w.data x = some p ∨ w.data x = none ∧ w.mem.heap.get p = none

theorem Inited.string_other (hi : Inited w x w' p h) (hw : Wf w) (hy : y ≠ x) : w'.string y = w.string y := by
  refine string_congr (hi.other y hy) fun q hq => ?_
  obtain ⟨b, hb, -, -⟩ := hw.live y q hq
  exact hi.live q (by rw [hb]; rfl)

theorem init_isSome (hw : Wf w) (hx : x < w.slices.length) : ∃ w' p h, w.initIfNeed x = some w' ∧ Inited w x w' p h := by
  unfold World.initIfNeed
  cases hd : w.data x with
  | some p =>
    obtain ⟨h, hh, -, -⟩ := hw.live x p hd
    have hstr : w.string x = some h := by rw [string_of_data hd, hh]
    refine ⟨w, p, h, rfl, hw, hd, hh, ?_, ?_, ?_, rfl, fun _ _ => rfl, fun _ _ => rfl, .inl hd⟩
    · simp [World.size, hstr]
    · simp [World.avail, hstr]
    · simp [World.held, hstr]
  | none =>
    obtain ⟨m', q, he, hq, hf, hget⟩ := sdsempty_isSome hw.fails
    have hstr : w.string x = none := by
      unfold World.string
      rw [hd]
      rfl
    have hdata : World.data ⟨m', w.slices.set x (some q)⟩ = Function.update w.data x (some q) := data_set hx
    refine ⟨⟨m', w.slices.set x (some q)⟩, q, ⟨.type8, 0, 0, [some 0]⟩, by simp only [he]; rfl, ?_, ?_, ?_, ?_, ?_, ?_, ?_,
      fun y hy => ?_, fun p hp => ?_, .inr ⟨hd, hq⟩⟩
    · exact hw.fresh hq hf hget ⟨by decide, fun _ => by decide, fun _ => by decide, by decide⟩ rfl hdata
    · rw [hdata, Function.update_self]
    · show m'.heap.get q = _
      rw [hget, Function.update_self]
    · simp [World.size, hstr]
    · simp [World.avail, hstr]
      decide
    · simp [World.held, hstr]
    · exact List.length_set
    · rw [hdata, Function.update_of_ne hy]
    · show m'.heap.get p = _
      rw [hget, Function.update_of_ne]
      rintro rfl
      rw [hq] at hp
      cases hp

theorem wf_appendFmt (hw : Wf w) (hx : x < w.slices.length) {fmt : Src} {args : List VaArg}
    (hr : w.appendFmt x fmt args = some w') : Wf w' ∧ ∀ y, y ≠ x → w'.string y = w.string y := by
  obtain ⟨w1, p, h, hinit, hi⟩ := init_isSome hw hx
  unfold World.appendFmt World.call at hr
  rw [hinit, Option.bind_some, hi.data, Option.bind_some] at hr
  obtain ⟨⟨w2, r⟩, hcall, rfl⟩ := Option.map_eq_some_iff.mp hr
  obtain ⟨⟨m2, r'⟩, hfmt, he⟩ := Option.map_eq_some_iff.mp hcall
  cases he
  obtain ⟨h', hh', hs, -⟩ := hi.wf.live x p hi.data
  obtain rfl := Option.some.inj (hi.get.symm.trans hh')
  have hrep := sdscatvfmt_cases hi.wf.fails hi.get hs hfmt
  refine ⟨hi.wf.replaced hi.data hrep, fun y hy => ?_⟩
  rw [← hi.string_other hw hy]
  refine string_replaced hi.wf hi.data hrep ?_ rfl hy
  rw [if_pos rfl, data_set (data_lt hi.data), Function.update_of_ne hy]

theorem wf_clear (hw : Wf w) (hr : w.clear x = some w') : Wf w' := by
  unfold World.clear at hr
  split_ifs at hr with hx
  obtain ⟨m1, hfree, rfl⟩ := Option.map_eq_some_iff.mp hr
  cases hd : w.data x with
  | none =>
    rw [hd] at hfree
    obtain rfl := Option.some.inj hfree
    refine hw.mono rfl fun y q hy => ?_
    rw [data_set hx] at hy
    by_cases hyx : y = x
    · rw [hyx, Function.update_self] at hy
      cases hy
    · rwa [Function.update_of_ne hyx] at hy
  | some p =>
    rw [hd] at hfree
    exact hw.freed hd hfree

/-- The steps other than append, the constructors on zeroed storage. -/
theorem wf_other (hw : Wf w) {last : Option Call} {act : Act} (hok : StepOk (.running w last) act)
    (hr : w.other act = some w') : Wf w' := by
  cases act with
  | default =>
    obtain rfl := Option.some.inj hr
    refine hw.mono rfl fun y q hy => ?_
    rw [data_push] at hy
    by_cases hyl : y = w.slices.length
    · rw [hyl, Function.update_self] at hy
      cases hy
    · rwa [Function.update_of_ne hyl] at hy
  | ofCStr s =>
    unfold World.other sdsnew at hr
    dsimp only at hr
    split_ifs at hr with hnull
    · exact wf_construct hw hr
    · cases hlen : s.strlen w.mem with
      | none =>
        rw [hlen] at hr
        cases hr
      | some n =>
        rw [hlen] at hr
        exact wf_construct hw hr
  | ofBytes s len => exact wf_construct hw hr
  | copy raw s =>
    obtain rfl : raw = none := hok
    -- nothing is freed, since `raw` is NULL
    obtain ⟨p, -, hr⟩ := Option.bind_eq_some_iff.mp hr
    obtain ⟨h, -, hr⟩ := Option.bind_eq_some_iff.mp hr
    exact wf_construct hw hr
  | move raw s =>
    obtain rfl : raw = none := hok
    unfold World.other World.moveConstruct at hr
    dsimp only at hr
    split_ifs at hr with hs
    obtain rfl := Option.some.inj hr
    exact hw.moved hs
  | append x a => cases hr
  | appendFmt x fmt args =>
    unfold World.other at hr
    dsimp only at hr
    split_ifs at hr with hx
    exact (wf_appendFmt hw hx hr).1
  | clear x => exact wf_clear hw hr

end Objects

end BeanRaft.Slice
