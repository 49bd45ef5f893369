import BeanRaft.Slice.Refine

/-!
# BeanRaft.Slice.Values — is a Slice a value?

`dup`, the assignments and the destructor of `slice.cpp`, and all members together as a transition system.  Its state
remembers the bytes that each object is to hold (`ValueAct.spec`): a copy holds the bytes of its source, and what is done
to one object does not change another.

* `Valued`: the objects hold these bytes, and each is the only one with its live string.
* `World.Ok`: when a member keeps this.
* `valued_iff`: the condition is exact.
-/

namespace BeanRaft.Slice

open CInt Lib Lts

namespace World

variable (w : World) (x : Nat)

/-! ## slice.cpp -/

/-- `dup()`: the size is passed as an `int`, and the result is constructed in place. -/
def dup (s : Nat) : Option World :=
  (w.data s).bind fun p => (w.mem.heap.get p).bind fun h =>
    w.construct (sdsnewlen w.mem (.sds p 0) (uint64 (int32 h.len)))

/-- The end of a function that is to return a value and has no `return`.  That is undefined; code that comes back to the
caller all the same does so with `returns`. -/
def flowOff (returns : Bool) : Option World := if returns then some w else none

/-- `operator=(const Slice &s)`: no `return`. -/
def copyAssign (returns : Bool) (s : Nat) : Option World :=
  (w.mem.sdsfree (w.data x)).bind fun m => (w.data s).bind fun p => (m.heap.get p).bind fun h =>
    (sdsnewlen m (.sds p 0) h.len).bind fun (m, r) => flowOff ⟨m, w.slices.set x r⟩ returns

/-- `operator=(Slice &&s)`: no `return`. -/
def moveAssign (returns : Bool) (s : Nat) : Option World :=
  (w.mem.sdsfree (w.data x)).bind fun m => flowOff ⟨m, (w.slices.set x (w.data s)).set s none⟩ returns

/-- `~Slice()`.  The place counts as that of a new `Slice()` afterwards. -/
def destruct : Option World := (w.mem.sdsfree (w.data x)).map fun m => ⟨m, w.slices.set x none⟩

end World

/-! ## The system -/

inductive ValueAct
  | base (act : Act)
  | dup (s : Nat)
  | assign (x s : Nat)
  | moveAssign (x s : Nat)
  | destroy (x : Nat)
  deriving DecidableEq, Repr

/-- The outcome of a call: undefined behaviour, or the objects after it; `none` for one that cannot be made. -/
def World.after (w : World) : ValueAct → Option (Option World)
  | .base (.copy raw s) => if s < w.slices.length then some (w.copyConstruct raw s) else none
  | .base (.move raw s) => if s < w.slices.length then some (w.moveConstruct raw s) else none
  | .base (.append x a) =>
    if x < w.slices.length then (a.appended w).map fun _ => (w.append x a).map Prod.fst else none
  | .base (.clear x) => if x < w.slices.length then some (w.clear x) else none
  | .base act => (w.other act).map some
  | .dup s => if s < w.slices.length then some (w.dup s) else none
  | .assign x s => if x < w.slices.length ∧ s < w.slices.length then some (w.copyAssign x false s) else none
  | .moveAssign x s => if x < w.slices.length ∧ s < w.slices.length then some (w.moveAssign x false s) else none
  | .destroy x => if x < w.slices.length then some (w.destruct x) else none

/-- What the objects are to hold after a call, when they held `vals`: the new object has the first free place.  What a
constructor from bytes puts into its object, an append makes of it and a move leaves in its source is not said. -/
def ValueAct.spec (w w' : World) (vals : Nat → List Byte) : ValueAct → Nat → List Byte
  | .base .default => Function.update vals w.slices.length []
  | .base (.ofCStr _) | .base (.ofBytes _ _) => Function.update vals w.slices.length (w'.held w.slices.length)
  | .base (.copy _ s) | .dup s => Function.update vals w.slices.length (vals s)
  | .base (.move _ s) => Function.update (Function.update vals s (w'.held s)) w.slices.length (vals s)
  | .base (.append x _) | .base (.appendFmt x _ _) => Function.update vals x (w'.held x)
  | .base (.clear x) | .destroy x => Function.update vals x []
  | .assign x s => Function.update vals x (vals s)
  | .moveAssign x s => Function.update (Function.update vals s (w'.held s)) x (vals s)

inductive ValueState
  | running (w : World) (vals : Nat → List Byte)
  | undefined

/-- The transition function. -/
def ValueState.step : ValueState → ValueAct → Option ValueState
  | .undefined, _ => none
  | .running w vals, act => (w.after act).map fun
    | none => .undefined
    | some w' => .running w' (act.spec w w' vals)

def ValueState.start : ValueState := .running ⟨⟨⟨[]⟩, []⟩, []⟩ fun _ => []

/-- The members of the class as a transition system. -/
def values : System ValueState ValueAct where
  init s := s = .start
  step := ValueState.step

/-! ## The property and its condition -/

/-- Each object holds its bytes, and no other has its string, which is live: so an append that leaves `data` at a block that
was given up breaks it, too. -/
structure World.Valued (w : World) (vals : Nat → List Byte) : Prop where
  live : ∀ x p, w.data x = some p → (w.mem.heap.get p).isSome = true
  distinct : ∀ x y p, w.data x = some p → w.data y = some p → x = y
  bytes : ∀ x, w.held x = vals x ∧ w.size x = (vals x).length

def Valued : ValueState → Prop
  | .running w vals => w.Valued vals
  | .undefined => False

/-- The storage of a new object holds NULL, or the pointer to a string that no object has. -/
def RawOk (w : World) (raw : Option Ptr) : Prop :=
  ∀ p ∈ raw, (w.mem.heap.get p).isSome = true ∧ some p ∉ w.slices

instance (w : World) (raw : Option Ptr) : Decidable (RawOk w raw) := by
  unfold RawOk
  infer_instance

/-- The source has a string, and there is a block for one of its size. -/
def CopyOk (w : World) (s : Nat) : Prop := w.data s ≠ none ∧ w.size s + 18 < 2 ^ 64

instance (w : World) (s : Nat) : Decidable (CopyOk w s) := inferInstanceAs (Decidable (_ ∧ _))

/-- The condition on a call. -/
def World.Ok (w : World) : ValueAct → Prop
  | .base (.copy raw s) => RawOk w raw ∧ CopyOk w s
  | .base (.move raw _) => RawOk w raw
  | .base (.append x a) => ∀ bs ∈ a.appended w, a.isNull w = true ∨ CallOk w x a bs.length
  | .base _ => True
  | .dup s => CopyOk w s ∧ uint64 (int32 (w.size s)) = w.size s
  | .assign _ _ | .moveAssign _ _ => False
  | .destroy _ => True

def ValueOk : ValueState → ValueAct → Prop
  | .running w _, act => w.Ok act
  | .undefined, _ => True

section Values

variable {w w' : World} {m m' : Mem} {x y s p q n : Nat} {raw r : Option Ptr} {h b : Sdshdr} {bs : List Byte}
  {vals : Nat → List Byte}

/-! ## What an object holds -/

theorem held_of_string (hx : w.string x = some h) : w.held x = h.buf.take h.len := by simp [World.held, hx]

theorem size_of_string (hx : w.string x = some h) : w.size x = h.len := by simp [World.size, hx]

theorem string_of_none (hx : w.data x = none) : w.string x = none := by
  unfold World.string
  rw [hx]
  rfl

theorem held_of_none (hx : w.data x = none) : w.held x = [] := by simp [World.held, string_of_none hx]

theorem held_of_holds (h : w.Holds x bs) : w.held x = bs := by
  unfold World.Holds at h
  cases hstr : w.string x with
  | none =>
    rw [hstr] at h
    exact h.elim
  | some b =>
    rw [hstr] at h
    obtain ⟨hlen, htext⟩ := h
    have hpre : (b.buf.take (bs.length + 1)).take bs.length = bs := by
      rw [htext, List.take_left']
      rfl
    rw [List.take_take, Nat.min_eq_left (Nat.le_succ _)] at hpre
    rw [held_of_string hstr, hlen, hpre]

theorem Lost.held (h : Lost w x) : w.held x = [] := by
  obtain ⟨p, hd, hdead⟩ := h
  have hstr : w.string x = none := by rw [string_of_data hd, hdead]
  simp [World.held, hstr]

theorem held_congr (hx : w'.string x = w.string y) : w'.held x = w.held y := by
  unfold World.held
  rw [hx]

theorem size_held (hw : Wf w) (x : Nat) : w.size x = (w.held x).length := by
  cases hd : w.data x with
  | none => simp [World.size, World.held, string_of_none hd]
  | some p =>
    obtain ⟨h, hh, hs, -⟩ := hw.live x p hd
    have hstr : w.string x = some h := by rw [string_of_data hd, hh]
    have hroom := hs.room
    rw [size_of_string hstr, held_of_string hstr, List.length_take]
    omega

/-- Only the object `x` changes. -/
theorem held_update (hother : ∀ y, y ≠ x → w'.string y = w.string y) (hx : w'.held x = bs) :
    w'.held = Function.update w.held x bs := by
  funext y
  by_cases hy : y = x
  · rw [hy, Function.update_self, hx]
  · rw [Function.update_of_ne hy]
    exact held_congr (hother y hy)

theorem valued_of_wf (hw : Wf w) (hheld : w.held = vals) : w.Valued vals := by
  refine ⟨fun x p hx => ?_, hw.distinct, fun x => ⟨congrFun hheld x, ?_⟩⟩
  · obtain ⟨h, hh, -, -⟩ := hw.live x p hx
    rw [hh]
    rfl
  · rw [size_held hw, hheld]

/-! ## A release -/

/-- The string of an object is released, if it has one. -/
theorem release (hw : Wf w) (hx : x < w.slices.length) : ∃ m, w.mem.sdsfree (w.data x) = some m ∧
    Wf ⟨m, w.slices.set x none⟩ ∧ ∀ y, y ≠ x → World.string ⟨m, w.slices.set x none⟩ y = w.string y := by
  have hdata : ∀ m : Mem, World.data ⟨m, w.slices.set x none⟩ = Function.update w.data x none := fun m => data_set hx
  cases hd : w.data x with
  | none =>
    have hsame : ∀ m : Mem, World.data ⟨m, w.slices.set x none⟩ = w.data := fun m => by
      rw [hdata m, ← hd, Function.update_eq_self]
    refine ⟨w.mem, rfl, hw.mono rfl fun y q hy => ?_, fun y _ => string_congr (congrFun (hsame w.mem) y) fun _ _ => rfl⟩
    rwa [hsame w.mem] at hy
  | some p =>
    obtain ⟨h, hh, -, -⟩ := hw.live x p hd
    obtain ⟨m, hm⟩ := sdsfree_isSome hh
    obtain ⟨-, -, hget⟩ := sdsfree_some hm
    refine ⟨m, hm, hw.freed hd hm, fun y hy => ?_⟩
    refine string_freed hget (by rw [hdata m, Function.update_of_ne hy]) fun hyp => ?_
    exact hy (hw.distinct y x p hyp hd)

theorem mem_slices (hd : w.data y = some p) : some p ∈ w.slices := by
  have hget : w.slices[y]? = some (some p) := by
    unfold World.data at hd
    cases hy : w.slices[y]? with
    | none =>
      rw [hy] at hd
      cases hd
    | some o =>
      rw [hy] at hd
      exact congrArg some hd
  exact List.mem_of_getElem? hget

theorem exists_data (hp : some p ∈ w.slices) : ∃ y, w.data y = some p := by
  obtain ⟨y, hy⟩ := List.getElem?_of_mem hp
  exact ⟨y, by rw [World.data, hy]; rfl⟩

/-- What the storage of a new object held is released. -/
theorem release_raw (hw : Wf w) (hraw : RawOk w raw) : ∃ m, w.mem.sdsfree raw = some m ∧ Wf ⟨m, w.slices⟩ ∧
    ∀ y, World.string ⟨m, w.slices⟩ y = w.string y := by
  cases raw with
  | none => exact ⟨w.mem, rfl, hw, fun _ => rfl⟩
  | some p =>
    obtain ⟨hlive, hfree⟩ := hraw p rfl
    obtain ⟨h, hh⟩ := Option.isSome_iff_exists.mp hlive
    obtain ⟨m, hm⟩ := sdsfree_isSome hh
    obtain ⟨-, hf, hget⟩ := sdsfree_some hm
    have hne : ∀ y q, w.data y = some q → q ≠ p := by
      rintro y q hy rfl
      exact hfree (mem_slices hy)
    refine ⟨m, hm, ⟨hf.trans hw.fails, fun y q hy => ?_, fun y z q hy hz => hw.distinct y z q hy hz⟩, fun y => ?_⟩
    · obtain ⟨b, hb⟩ := hw.live y q hy
      refine ⟨b, ?_, hb.2⟩
      show m.heap.get q = some b
      rw [hget, Function.update_of_ne (hne y q hy), hb.1]
    · exact string_freed hget rfl fun hy => hne y p hy rfl

/-! ## A new string -/

/-- A new string is placed in the object `x`. -/
theorem place_new {t : Src} (hw : Wf w) (hr : sdsnewlen w.mem t n = some (m', r)) (hm : w'.mem = m')
    (hd : w'.data = Function.update w.data x r) : Wf w' ∧ (∀ y, y ≠ x → w'.string y = w.string y) ∧
      ∃ b q, r = some q ∧ w'.string x = some b ∧ b.len = n ∧
        ∀ bs, t ≠ .null → t ≠ .noinit → t.read w.mem n = some bs → b.buf.take n = bs := by
  obtain ⟨q, b, rfl, hq, hf, hget, hs, ht, hlen, -, htext⟩ := sdsnewlen_cases hw.fails hr
  have hget' : w'.mem.heap.get = Function.update w.mem.heap.get q (some b) := by rw [hm, hget]
  refine ⟨hw.fresh hq (by rw [hm, hf]) hget' hs ht hd, fun y hy => ?_, b, q, rfl, ?_, hlen, htext⟩
  · exact string_fresh hw hq hget' (by rw [hd, Function.update_of_ne hy])
  · rw [string_of_data (show w'.data x = some q by rw [hd, Function.update_self]), hget', Function.update_self]

/-- The string of `s` can be copied. -/
theorem copy_string (hw : Wf w) (hok : CopyOk w s) : ∃ p h x, w.data s = some p ∧ w.mem.heap.get p = some h ∧
    h.len = w.size s ∧ (Src.sds p 0).read w.mem h.len = some (w.held s) ∧ sdsnewlen w.mem (.sds p 0) h.len = some x := by
  obtain ⟨p, hd⟩ := Option.ne_none_iff_exists'.mp hok.1
  obtain ⟨h, hh, hs, -⟩ := hw.live s p hd
  have hstr : w.string s = some h := by rw [string_of_data hd, hh]
  have hsize := size_of_string hstr
  have hread : (Src.sds p 0).read w.mem h.len = some (w.held s) := by
    rw [held_of_string hstr]
    exact read_string hh hs
  have hfit := hok.2
  rw [hsize] at hfit
  obtain ⟨x, hx⟩ := sdsnewlen_isSome hw.fails hfit fun _ _ => ⟨_, hread⟩
  exact ⟨p, h, x, hd, hh, hsize.symm, hread, hx⟩

/-- The copy of the string of `s` is placed in the object `x`. -/
theorem place_copy (hw : Wf w) (hok : CopyOk w s) (hd : w.data s = some p) (hh : w.mem.heap.get p = some h)
    (hr : sdsnewlen w.mem (.sds p 0) h.len = some (m', r)) (hm : w'.mem = m')
    (hx : w'.data = Function.update w.data x r) : Wf w' ∧ w'.held = Function.update w.held x (w.held s) := by
  obtain ⟨p', h', -, hd', hh', -, hread, -⟩ := copy_string hw hok
  obtain rfl := Option.some.inj (hd.symm.trans hd')
  obtain rfl := Option.some.inj (hh.symm.trans hh')
  obtain ⟨hwf, hother, b, q, rfl, hstr, hlen, htext⟩ := place_new hw hr hm hx
  refine ⟨hwf, held_update hother ?_⟩
  rw [held_of_string hstr, hlen]
  exact htext _ (by simp) (by simp) hread

/-! ## The calls that work -/

theorem held_release (hx : x < w.slices.length)
    (hother : ∀ y, y ≠ x → World.string ⟨m, w.slices.set x none⟩ y = w.string y) :
    World.held ⟨m, w.slices.set x none⟩ = Function.update w.held x [] := by
  apply held_update hother
  apply held_of_none
  rw [data_set hx, Function.update_self]

/-- The condition on a source is the same while its string stays. -/
theorem CopyOk.congr (hok : CopyOk w s) (hd : w'.data s = w.data s) (hstr : w'.string s = w.string s) : CopyOk w' s := by
  refine ⟨by rw [hd]; exact hok.1, ?_⟩
  unfold World.size
  rw [hstr]
  exact hok.2

theorem copyConstruct_ok (hw : Wf w) (hraw : RawOk w raw) (hok : CopyOk w s) : ∃ w', w.copyConstruct raw s = some w' ∧
    Wf w' ∧ w'.held = Function.update w.held w.slices.length (w.held s) := by
  obtain ⟨m, hm, hw0, hsame⟩ := release_raw hw hraw
  have hheld : World.held ⟨m, w.slices⟩ = w.held := funext fun y => held_congr (hsame y)
  obtain ⟨p, h, ⟨m', r⟩, hd, hh, -, -, hnew⟩ := copy_string hw0 (hok.congr rfl (hsame s))
  have hd' : w.data s = some p := hd
  have hh' : m.heap.get p = some h := hh
  have hnew' : sdsnewlen m (.sds p 0) h.len = some (m', r) := hnew
  refine ⟨⟨m', w.slices ++ [r]⟩, ?_, ?_⟩
  · unfold World.copyConstruct World.construct
    rw [hm, Option.bind_some, hd', Option.bind_some, hh', Option.bind_some, hnew']
    rfl
  · rw [← hheld]
    exact place_copy hw0 (hok.congr rfl (hsame s)) hd hh hnew rfl data_push

theorem dup_ok (hw : Wf w) (hok : CopyOk w s) (hint : uint64 (int32 (w.size s)) = w.size s) : ∃ w', w.dup s = some w' ∧
    Wf w' ∧ w'.held = Function.update w.held w.slices.length (w.held s) := by
  obtain ⟨p, h, ⟨m', r⟩, hd, hh, hlen, -, hnew⟩ := copy_string hw hok
  refine ⟨⟨m', w.slices ++ [r]⟩, ?_, place_copy hw hok hd hh hnew rfl data_push⟩
  unfold World.dup World.construct
  rw [hd, Option.bind_some, hh, Option.bind_some, hlen, hint, ← hlen, hnew]
  rfl

/-- What the objects hold after the string of `s` went to `x`. -/
theorem held_transfer (hm : w'.mem = w.mem)
    (hd : w'.data = Function.update (Function.update w.data s none) x (w.data s)) :
    w'.held = Function.update (Function.update w.held s (w'.held s)) x (w.held s) := by
  funext y
  by_cases hyx : y = x
  · subst hyx
    rw [Function.update_self]
    apply held_congr
    unfold World.string
    rw [hd, Function.update_self, hm]
  · rw [Function.update_of_ne hyx]
    by_cases hys : y = s
    · rw [hys, Function.update_self]
    · rw [Function.update_of_ne hys]
      apply held_congr
      refine string_congr ?_ fun p _ => by rw [hm]
      rw [hd, Function.update_of_ne hyx, Function.update_of_ne hys]

theorem moveConstruct_ok (hw : Wf w) (hraw : RawOk w raw) (hs : s < w.slices.length) :
    ∃ w', w.moveConstruct raw s = some w' ∧ Wf w' ∧
      w'.held = Function.update (Function.update w.held s (w'.held s)) w.slices.length (w.held s) := by
  obtain ⟨m, hm, hw0, hsame⟩ := release_raw hw hraw
  have hheld : World.held ⟨m, w.slices⟩ = w.held := funext fun y => held_congr (hsame y)
  refine ⟨⟨m, w.slices.set s none ++ [w.data s]⟩, ?_, hw0.moved hs, ?_⟩
  · unfold World.moveConstruct
    rw [if_pos hs, hm]
    rfl
  · rw [← hheld]
    exact held_transfer rfl (data_moved hs)

/-- What is at `x` before the last update of `x` does not matter. -/
theorem update_between {β : Type} (f : Nat → β) (hne : x ≠ s) (a b c : β) :
    Function.update (Function.update (Function.update f x a) s b) x c = Function.update (Function.update f s b) x c := by
  rw [Function.update_comm hne, Function.update_idem]

/-- A move assignment that comes back to its caller. -/
theorem moveAssign_ok (hw : Wf w) (hx : x < w.slices.length) (hs : s < w.slices.length) (hne : x ≠ s) :
    ∃ w', w.moveAssign x true s = some w' ∧ Wf w' ∧
      w'.held = Function.update (Function.update w.held s (w'.held s)) x (w.held s) := by
  obtain ⟨m, hm, hw0, hother⟩ := release hw hx
  have hdata0 : World.data ⟨m, w.slices.set x none⟩ = Function.update w.data x none := data_set hx
  have hlen : s < (w.slices.set x (w.data s)).length := by
    rw [List.length_set]
    exact hs
  have hdata : World.data ⟨m, (w.slices.set x (w.data s)).set s none⟩ =
      Function.update (Function.update (World.data ⟨m, w.slices.set x none⟩) s none) x
        (World.data ⟨m, w.slices.set x none⟩ s) := by
    have hset : World.data ⟨m, (w.slices.set x (w.data s)).set s none⟩ =
        Function.update (World.data ⟨m, w.slices.set x (w.data s)⟩) s none :=
      data_set (w := ⟨m, w.slices.set x (w.data s)⟩) hlen
    rw [hset, data_set hx, hdata0, Function.update_of_ne (Ne.symm hne), update_between _ hne]
    exact Function.update_comm hne _ _ _
  refine ⟨⟨m, (w.slices.set x (w.data s)).set s none⟩, ?_, hw0.transfer rfl hdata, ?_⟩
  · unfold World.moveAssign
    rw [hm]
    rfl
  · have htransfer : World.held ⟨m, (w.slices.set x (w.data s)).set s none⟩ = _ :=
      held_transfer (w := ⟨m, w.slices.set x none⟩) rfl hdata
    rw [held_release hx hother, Function.update_of_ne (Ne.symm hne), update_between _ hne] at htransfer
    exact htransfer

theorem release_ok (hw : Wf w) (hx : x < w.slices.length) :
    ∃ w', w.destruct x = some w' ∧ Wf w' ∧ w'.held = Function.update w.held x [] := by
  obtain ⟨m, hm, hw0, hother⟩ := release hw hx
  refine ⟨⟨m, w.slices.set x none⟩, ?_, hw0, held_release hx hother⟩
  unfold World.destruct
  rw [hm]
  rfl

theorem copyAssign_undefined : w.copyAssign x false s = none := by
  unfold World.copyAssign World.flowOff
  simp

theorem moveAssign_undefined : w.moveAssign x false s = none := by
  unfold World.moveAssign World.flowOff
  simp

theorem clear_eq (hx : x < w.slices.length) : w.clear x = w.destruct x := if_pos hx

theorem append_ok {a : Arg} (hw : Wf w) (hx : x < w.slices.length) (hb : a.appended w = some bs)
    (hok : a.isNull w = true ∨ CallOk w x a bs.length) :
    ∃ w', (w.append x a).map Prod.fst = some w' ∧ Wf w' ∧ w'.held = Function.update w.held x (w'.held x) := by
  by_cases hnull : a.isNull w = true
  · refine ⟨w, ?_, hw, (Function.update_eq_self _ _).symm⟩
    rw [(append_null (x := x) hnull hb).1]
    rfl
  · obtain ⟨w', r, hr, hwf, -, -, hother⟩ := (append_outcome hw hx hb).1 (hok.resolve_left hnull)
    refine ⟨w', ?_, hwf, held_update hother rfl⟩
    rw [hr]
    rfl

/-- The calls other than append, on bytes of the caller. -/
theorem construct_ok {t : Src} (hw : Wf w) (hr : w.construct (sdsnewlen w.mem t n) = some w') :
    Wf w' ∧ w'.held = Function.update w.held w.slices.length (w'.held w.slices.length) := by
  obtain ⟨⟨m1, r⟩, hnew, rfl⟩ := Option.map_eq_some_iff.mp hr
  have hplace : World.data ⟨m1, w.slices ++ [r]⟩ = Function.update w.data w.slices.length r := data_push
  obtain ⟨hwf, hother, -⟩ := place_new hw hnew rfl hplace
  exact ⟨hwf, held_update hother rfl⟩

theorem appendFmt_ok {fmt : Src} {args : List VaArg} (hw : Wf w) (hx : x < w.slices.length)
    (hr : w.appendFmt x fmt args = some w') : Wf w' ∧ w'.held = Function.update w.held x (w'.held x) := by
  obtain ⟨hwf, hother⟩ := wf_appendFmt hw hx hr
  exact ⟨hwf, held_update hother rfl⟩

/-- The calls that can be made, with their outcomes. -/
inductive Called (w : World) : ValueAct → Option World → Prop
  | default : Called w (.base .default) (some ⟨w.mem, w.slices ++ [none]⟩)
  | ofCStr {t : Src} {n : Nat} {w' : World} (h : w.construct (sdsnewlen w.mem t n) = some w') :
    Called w (.base (.ofCStr t)) (some w')
  | ofBytes {t : Src} {len : Int32} {n : Nat} {w' : World} (h : w.construct (sdsnewlen w.mem t n) = some w') :
    Called w (.base (.ofBytes t len)) (some w')
  | appendFmt {x : Nat} {fmt : Src} {args : List VaArg} {w' : World} (hx : x < w.slices.length)
    (h : w.appendFmt x fmt args = some w') : Called w (.base (.appendFmt x fmt args)) (some w')
  | copy {raw : Option Ptr} {s : Nat} : Called w (.base (.copy raw s)) (w.copyConstruct raw s)
  | move {raw : Option Ptr} {s : Nat} (hs : s < w.slices.length) : Called w (.base (.move raw s)) (w.moveConstruct raw s)
  | append {x : Nat} {a : Arg} {bs : List Byte} (hx : x < w.slices.length) (hb : a.appended w = some bs) :
    Called w (.base (.append x a)) ((w.append x a).map Prod.fst)
  | clear {x : Nat} (hx : x < w.slices.length) : Called w (.base (.clear x)) (w.destruct x)
  | dup {s : Nat} : Called w (.dup s) (w.dup s)
  | assign {x s : Nat} : Called w (.assign x s) none
  | moveAssign {x s : Nat} : Called w (.moveAssign x s) none
  | destroy {x : Nat} (hx : x < w.slices.length) : Called w (.destroy x) (w.destruct x)

theorem called_of_after {act : ValueAct} {o : Option World} (hr : w.after act = some o) : Called w act o := by
  cases act with
  | base act =>
    cases act with
    | default =>
      obtain rfl := Option.some.inj hr
      exact .default
    | ofCStr t =>
      obtain ⟨w', hw', rfl⟩ := Option.map_eq_some_iff.mp hr
      unfold World.other sdsnew at hw'
      dsimp only at hw'
      split_ifs at hw'
      · exact .ofCStr hw'
      · cases hlen : t.strlen w.mem with
        | none =>
          rw [hlen] at hw'
          cases hw'
        | some n =>
          rw [hlen] at hw'
          exact .ofCStr hw'
    | ofBytes t len =>
      obtain ⟨w', hw', rfl⟩ := Option.map_eq_some_iff.mp hr
      exact .ofBytes hw'
    | appendFmt x fmt args =>
      obtain ⟨w', hw', rfl⟩ := Option.map_eq_some_iff.mp hr
      unfold World.other at hw'
      dsimp only at hw'
      split_ifs at hw' with hx
      exact .appendFmt hx hw'
    | copy raw s =>
      simp only [World.after, Option.ite_none_right_eq_some] at hr
      obtain ⟨-, rfl⟩ := And.imp_right Option.some.inj hr
      exact .copy
    | move raw s =>
      simp only [World.after, Option.ite_none_right_eq_some] at hr
      obtain ⟨hs, rfl⟩ := And.imp_right Option.some.inj hr
      exact .move hs
    | append x a =>
      simp only [World.after, Option.ite_none_right_eq_some] at hr
      obtain ⟨hx, hr⟩ := hr
      obtain ⟨bs, hb, rfl⟩ := Option.map_eq_some_iff.mp hr
      exact .append hx hb
    | clear x =>
      simp only [World.after, Option.ite_none_right_eq_some] at hr
      obtain ⟨hx, rfl⟩ := And.imp_right Option.some.inj hr
      rw [clear_eq hx]
      exact .clear hx
  | dup s =>
    simp only [World.after, Option.ite_none_right_eq_some] at hr
    obtain ⟨-, rfl⟩ := And.imp_right Option.some.inj hr
    exact .dup
  | assign x s =>
    simp only [World.after, Option.ite_none_right_eq_some] at hr
    obtain ⟨-, rfl⟩ := And.imp_right Option.some.inj hr
    rw [copyAssign_undefined]
    exact .assign
  | moveAssign x s =>
    simp only [World.after, Option.ite_none_right_eq_some] at hr
    obtain ⟨-, rfl⟩ := And.imp_right Option.some.inj hr
    rw [moveAssign_undefined]
    exact .moveAssign
  | destroy x =>
    simp only [World.after, Option.ite_none_right_eq_some] at hr
    obtain ⟨hx, rfl⟩ := And.imp_right Option.some.inj hr
    exact .destroy hx

theorem default_ok (hw : Wf w) : Wf ⟨w.mem, w.slices ++ [none]⟩ ∧
    World.held ⟨w.mem, w.slices ++ [none]⟩ = Function.update w.held w.slices.length [] := by
  have hstep : StepOk (.running w none) .default := trivial
  refine ⟨wf_other hw hstep rfl, held_update (fun y hy => ?_) ?_⟩
  · exact string_congr (by rw [data_push, Function.update_of_ne hy]) fun _ _ => rfl
  · exact held_of_none (by rw [data_push, Function.update_self])

/-- **A call that meets the condition** keeps the objects well-formed, and they hold what they are to hold. -/
theorem after_ok {act : ValueAct} {o : Option World} (hw : Wf w) (hok : w.Ok act) (hr : w.after act = some o) :
    ∃ w', o = some w' ∧ Wf w' ∧ w'.held = act.spec w w' w.held := by
  cases called_of_after hr with
  | default => exact ⟨_, rfl, default_ok hw⟩
  | ofCStr h => exact ⟨_, rfl, construct_ok hw h⟩
  | ofBytes h => exact ⟨_, rfl, construct_ok hw h⟩
  | appendFmt hx h => exact ⟨_, rfl, appendFmt_ok hw hx h⟩
  | copy => exact copyConstruct_ok hw hok.1 hok.2
  | move hs => exact moveConstruct_ok hw hok hs
  | append hx hb => exact append_ok hw hx hb (hok _ hb)
  | clear hx => exact release_ok hw hx
  | dup => exact dup_ok hw hok.1 hok.2
  | assign | moveAssign => exact hok.elim
  | destroy hx => exact release_ok hw hx

/-! ## The calls that do not -/

/-- When the storage of a new object held the pointer of another, the string of that one is released. -/
theorem rawOk_of (hm : w.mem.sdsfree raw = some m) (hdead : ∀ y p, w.data y = some p → m.heap.get p ≠ none) :
    RawOk w raw := by
  rintro p rfl
  obtain ⟨⟨h, hh⟩, -, hget⟩ := sdsfree_some hm
  refine ⟨by rw [hh]; rfl, fun hp => ?_⟩
  obtain ⟨y, hy⟩ := exists_data hp
  exact hdead y p hy (by rw [hget, Function.update_self])

/-- A release brings no string to life. -/
theorem get_of_sdsfree (hm : m.sdsfree raw = some m') (hh : m'.heap.get p = some h) : m.heap.get p = some h := by
  cases raw with
  | none =>
    obtain rfl := Option.some.inj hm
    exact hh
  | some a =>
    obtain ⟨-, -, hget⟩ := sdsfree_some hm
    rw [hget] at hh
    by_cases hp : p = a
    · rw [hp, Function.update_self] at hh
      cases hh
    · rwa [Function.update_of_ne hp] at hh

theorem fails_of_sdsfree (hm : m.sdsfree raw = some m') : m'.fails = m.fails := by
  cases raw with
  | none => rw [Option.some.inj hm]
  | some a => exact (sdsfree_some hm).2.1

theorem copyOk_of {t : Src} (hf : m.fails = []) (hd : w.data s = some p) (hh : w.mem.heap.get p = some h)
    (hr : sdsnewlen m t h.len = some (m', r)) : CopyOk w s := by
  obtain ⟨-, -, -, -, -, -, -, -, -, hfit, -⟩ := sdsnewlen_cases hf hr
  refine ⟨by rw [hd]; exact Option.some_ne_none p, ?_⟩
  rw [size_of_string (show w.string s = some h by rw [string_of_data hd, hh])]
  exact hfit

theorem next_of_sdsfree (hm : m.sdsfree raw = some m') : m'.heap.next = m.heap.next := by
  cases raw with
  | none => rw [Option.some.inj hm]
  | some a =>
    obtain ⟨heap, hheap, rfl⟩ := Option.map_eq_some_iff.mp hm
    exact Heap.next_free hheap

theorem copyConstruct_bad (hw : Wf w) (hr : w.copyConstruct raw s = some w')
    (hlive : ∀ x p, w'.data x = some p → (w'.mem.heap.get p).isSome = true) : RawOk w raw ∧ CopyOk w s := by
  obtain ⟨m, hm, hr⟩ := Option.bind_eq_some_iff.mp hr
  obtain ⟨p, hd, hr⟩ := Option.bind_eq_some_iff.mp hr
  obtain ⟨h, hh, hr⟩ := Option.bind_eq_some_iff.mp hr
  obtain ⟨⟨m', r⟩, hnew, rfl⟩ := Option.map_eq_some_iff.mp hr
  have hf : m.fails = [] := (fails_of_sdsfree hm).trans hw.fails
  refine ⟨rawOk_of hm fun y a hy hdead => ?_, copyOk_of hf hd (get_of_sdsfree hm hh) hnew⟩
  -- the string of `y` is not the new one
  obtain ⟨q, b, rfl, -, -, hget, -⟩ := sdsnewlen_cases hf hnew
  obtain ⟨b', hb', -⟩ := hw.live y a hy
  have haq : a ≠ q := by
    rw [sdsnewlen_next hf hnew, next_of_sdsfree hm]
    exact Heap.ne_next hb'
  have hpush : World.data ⟨m', w.slices ++ [some q]⟩ = Function.update w.data w.slices.length (some q) := data_push
  have hlive' : (m'.heap.get a).isSome = true := by
    refine hlive y a ?_
    rw [hpush, Function.update_of_ne (Nat.ne_of_lt (data_lt hy)), hy]
  rw [hget, Function.update_of_ne haq, hdead] at hlive'
  cases hlive'

theorem moveConstruct_bad (hr : w.moveConstruct raw s = some w')
    (hlive : ∀ x p, w'.data x = some p → (w'.mem.heap.get p).isSome = true) : RawOk w raw := by
  unfold World.moveConstruct at hr
  split_ifs at hr with hs
  obtain ⟨m, hm, rfl⟩ := Option.map_eq_some_iff.mp hr
  refine rawOk_of hm fun y a hy hdead => ?_
  have hmoved : World.data ⟨m, w.slices.set s none ++ [w.data s]⟩ = _ := data_moved hs
  -- the pointer is still there
  obtain ⟨z, hz⟩ : ∃ z, World.data ⟨m, w.slices.set s none ++ [w.data s]⟩ z = some a := by
    by_cases hys : y = s
    · refine ⟨w.slices.length, ?_⟩
      rw [hmoved, Function.update_self, ← hys, hy]
    · refine ⟨y, ?_⟩
      rw [hmoved, Function.update_of_ne (Nat.ne_of_lt (data_lt hy)), Function.update_of_ne hys, hy]
  have hlive' : (m.heap.get a).isSome = true := hlive z a hz
  rw [hdead] at hlive'
  cases hlive'

theorem dup_bad (hw : Wf w) (hr : w.dup s = some w')
    (hv : w'.Valued (Function.update w.held w.slices.length (w.held s))) :
    CopyOk w s ∧ uint64 (int32 (w.size s)) = w.size s := by
  obtain ⟨p, hd, hr⟩ := Option.bind_eq_some_iff.mp hr
  obtain ⟨h, hh, hr⟩ := Option.bind_eq_some_iff.mp hr
  obtain ⟨⟨m', r⟩, hnew, rfl⟩ := Option.map_eq_some_iff.mp hr
  have hsize : w.size s = h.len := size_of_string (by rw [string_of_data hd, hh])
  have hpush : World.data ⟨m', w.slices ++ [r]⟩ = Function.update w.data w.slices.length r := data_push
  obtain ⟨-, -, b, q, rfl, hstr, hlen, -⟩ := place_new hw hnew rfl hpush
  -- the size of the new object is the one that was passed
  have hnewsize := (hv.bytes w.slices.length).2
  rw [Function.update_self, ← size_held hw, size_of_string hstr, hlen, hsize] at hnewsize
  rw [hnewsize] at hnew
  rw [hsize]
  exact ⟨copyOk_of hw.fails hd hh hnew, hnewsize⟩

theorem append_bad {a : Arg} (hw : Wf w) (hx : x < w.slices.length) (hb : a.appended w = some bs)
    (hr : (w.append x a).map Prod.fst = some w') (hv : w'.Valued vals) : a.isNull w = true ∨ CallOk w x a bs.length := by
  by_contra hno
  obtain ⟨hnull, hcall⟩ := not_or.mp hno
  obtain ⟨⟨w1, r⟩, hr1, rfl⟩ := Option.map_eq_some_iff.mp hr
  obtain ⟨p, hd, hdead⟩ := ((append_outcome hw hx hb).2 hcall w1 r hr1).2 (Bool.eq_false_iff.mpr hnull)
  have hlive := hv.live x p hd
  rw [hdead] at hlive
  cases hlive

/-- **A call that does not meet the condition** ends in undefined behaviour, or the objects do not hold what they are to
hold. -/
theorem ok_of_valued {act : ValueAct} (hw : Wf w) (hr : w.after act = some (some w'))
    (hv : w'.Valued (act.spec w w' w.held)) : w.Ok act := by
  have hcalled := called_of_after hr
  generalize ho : some w' = o at hcalled
  cases hcalled with
  | copy => exact copyConstruct_bad hw ho.symm hv.live
  | move hs => exact moveConstruct_bad ho.symm hv.live
  | append hx hb =>
    intro bs' hb'
    obtain rfl := Option.some.inj (hb.symm.trans hb')
    exact append_bad hw hx hb ho.symm hv
  | dup => exact dup_bad hw ho.symm hv
  | assign | moveAssign => cases ho
  | default | ofCStr | ofBytes | appendFmt | clear | destroy => trivial

/-! ## Runs -/

/-- The objects are well-formed, and hold what they are to hold. -/
def ValueState.Kept : ValueState → Prop
  | .running w vals => Wf w ∧ w.held = vals
  | .undefined => False

theorem ValueState.kept_start : ValueState.start.Kept := by
  refine ⟨⟨rfl, fun x p hx => ?_, fun x y p hx _ => ?_⟩, rfl⟩
  · cases hx
  · cases hx

theorem ValueState.Kept.valued {σ : ValueState} (h : σ.Kept) : Valued σ := by
  cases σ with
  | undefined => exact h
  | running w vals => exact valued_of_wf h.1 h.2

theorem ValueState.Kept.step {σ σ' : ValueState} {act : ValueAct} (h : σ.Kept) (hok : ValueOk σ act)
    (hr : values.step σ act = some σ') : σ'.Kept := by
  cases σ with
  | undefined => exact h.elim
  | running w vals =>
    obtain ⟨hw, rfl⟩ := h
    obtain ⟨o, ho, he⟩ := Option.map_eq_some_iff.mp (show (w.after act).map _ = some σ' from hr)
    obtain ⟨w', rfl, hwf, hheld⟩ := after_ok hw hok ho
    rw [← he]
    exact ⟨hwf, hheld⟩

theorem ValueState.Kept.bad {σ σ' : ValueState} {act : ValueAct} (h : σ.Kept) (hno : ¬ ValueOk σ act)
    (hr : values.step σ act = some σ') : ¬ Valued σ' := by
  cases σ with
  | undefined => exact h.elim
  | running w vals =>
    obtain ⟨hw, rfl⟩ := h
    obtain ⟨o, ho, he⟩ := Option.map_eq_some_iff.mp (show (w.after act).map _ = some σ' from hr)
    rw [← he]
    cases o with
    | none => exact id
    | some w' => exact fun hv => hno (ok_of_valued hw ho hv)

/-- The objects after a run whose calls meet the condition. -/
def World.Reached (w : World) : Prop :=
  ∃ acts vals, StepsOk values ValueOk .start acts ∧ values.exec .start acts = some (.running w vals)

theorem World.Reached.wf (h : w.Reached) : Wf w := by
  obtain ⟨acts, vals, hok, hrun⟩ := h
  have hkept : (ValueState.running w vals).Kept :=
    (always_of_stepsOk (P := ValueState.Kept) (fun _ hk => hk) (fun _ _ _ hk ho hr => hk.step ho hr)
      ValueState.kept_start hok).exec hrun
  exact hkept.1

/-- One object, which holds `ab` in a string without free space. -/
def World.ab : World := ⟨⟨⟨[some ⟨.type5, 2, 0, [some 97, some 98, some 0]⟩]⟩, []⟩, [some 0]⟩

theorem World.reached_ab : World.ab.Reached :=
  ⟨[.base (.ofBytes (.ext [some 97, some 98]) 2)], _, fun _ _ => ⟨trivial, trivial⟩, rfl⟩

end Values

end BeanRaft.Slice
