import BeanRaft.Slice.Allocator

/-!
# BeanRaft.Slice.Failures — what is left of a Slice when an allocation fails

The members of the class under an allocator that returns NULL now and then.  Whatever has failed before, and whether
the calls were in order or not, the live strings are sound and terminated (`healthy_of_reach`).

* `Appending.GetsNull`: the allocator returns NULL during the call.  `FmtNull` says so of the loop over a format.
* `survives_iff`: after such a call the object has its old string if and only if the overload drops the pointer that the
  string function returns.  The others store the NULL, and `appendFmt` writes through it.
-/

namespace BeanRaft.Slice

open CInt Lib Lts

/-! ## A NULL during a call -/

/-- The loop gets NULL from `sdsMakeRoomFor`: for one byte at the start of a turn, for what a directive copies, or in a
later turn. -/
inductive FmtNull (fmt : Src) : FmtState → Nat → Prop
  | byte {σ : FmtState} {f : Nat} {c : UInt8} {h : Sdshdr} {m : Mem} (hc : fmt.byte σ.mem f = some c) (h0 : c ≠ 0)
    (hg : σ.mem.heap.get σ.s = some h) (ha : h.sdsavail = 0) (hn : sdsMakeRoomFor σ.mem σ.s 1 = some (m, none)) :
    FmtNull fmt σ f
  | text {σ : FmtState} {f l : Nat} {next : UInt8} {h b : Sdshdr} {m1 m : Mem} {s1 : Ptr} {t : Src}
    (hc : fmt.byte σ.mem f = some 37) (hg : σ.mem.heap.get σ.s = some h)
    (hroom : (if h.sdsavail = 0 then room σ.mem σ.s 1 else some (σ.mem, σ.s)) = some (m1, s1))
    (hc1 : fmt.byte m1 f = some 37) (hnext : fmt.byte m1 (f + 1) = some next) (hdir : next ∈ directives)
    (hsrc : FmtState.source { σ with mem := m1, s := s1 } next = some (t, l)) (hb : m1.heap.get s1 = some b)
    (ha : b.sdsavail < l) (hn : sdsMakeRoomFor m1 s1 l = some (m, none)) : FmtNull fmt σ f
  | later {σ σ' : FmtState} {f f' : Nat} {h : Sdshdr} {m1 : Mem} {s1 : Ptr} {c c1 : UInt8}
    (hc : fmt.byte σ.mem f = some c) (h0 : c ≠ 0) (hg : σ.mem.heap.get σ.s = some h)
    (hroom : (if h.sdsavail = 0 then room σ.mem σ.s 1 else some (σ.mem, σ.s)) = some (m1, s1))
    (hc1 : fmt.byte m1 f = some c1)
    (hturn : (if c1 = 37 then (fmt.byte m1 (f + 1)).bind fun next =>
        (FmtState.directive { σ with mem := m1, s := s1 } next).map (·, f + 2)
      else (FmtState.putc { σ with mem := m1, s := s1 } c1).map (·, f + 1)) = some (σ', f'))
    (hlater : FmtNull fmt σ' f') : FmtNull fmt σ f

/-- A call that appends. -/
inductive Appending
  | append (a : Arg)
  | appendFmt (fmt : Src) (args : List VaArg)

namespace Appending

variable (w : World) (x : Nat)

def run : Appending → Option World
  | append a => (w.append x a).map Prod.fst
  | appendFmt fmt args => w.appendFmt x fmt args

/-- The allocator returns NULL during the call on an object with a string. -/
def GetsNull : Appending → Prop
  | append a => ∃ p t n m, w.data x = some p ∧ a.text w = some (t, n) ∧ sdsMakeRoomFor w.mem p n = some (m, none)
  | appendFmt fmt args => ∃ p h, w.data x = some p ∧ w.mem.heap.get p = some h ∧ FmtNull fmt ⟨w.mem, p, h.len, args⟩ 0

/-- The result of the string function is not stored. -/
def drops : Appending → Bool
  | append a => !a.stored
  | appendFmt _ _ => false

end Appending

/-- The call returns, and the object has its old block, with the old bytes and perhaps more, and a null term. -/
def Survives (w : World) (x : Nat) (r : Option World) : Prop :=
  ∃ w', r = some w' ∧ w'.data x = w.data x ∧ ∃ h h', w.string x = some h ∧ w'.string x = some h' ∧ Sound h' ∧
    Terminated h' ∧ h.buf.take h.len <+: h'.buf.take h'.len

/-! ## The system -/

inductive FailState
  | running (w : World)
  | undefined

def FailState.step : FailState → ValueAct → Option FailState
  | .undefined, _ => none
  | .running w, act => (w.after act).map fun
    | none => .undefined
    | some w' => .running w'

/-- The members of the class; at the start it is fixed which allocations fail. -/
def failing : System FailState ValueAct where
  init s := ∃ fails, s = .running ⟨⟨⟨[]⟩, fails⟩, []⟩
  step := FailState.step

/-- The live strings are sound and terminated. -/
def Mem.Healthy (m : Mem) : Prop := ∀ p h, m.heap.get p = some h → Sound h ∧ Terminated h

section Null

variable {w w' : World} {x n : Nat} {m m' : Mem} {p : Ptr} {a : Arg} {fmt : Src} {σ : FmtState} {f : Nat} {t : Src}

theorem makeRoom_null (hn : sdsMakeRoomFor m p n = some (m', none)) :
    m'.heap = m.heap ∧ ∃ h, m.heap.get p = some h := by
  refine ⟨?_, ?_⟩
  · rcases makeRoom_refused m' none hn with ⟨-, hheap⟩ | ⟨q, hq, -⟩
    · exact hheap
    · cases hq
  · obtain ⟨h, hh, -⟩ := Option.bind_eq_some_iff.mp hn
    exact ⟨h, hh⟩

theorem sdscatlen_null (hn : sdsMakeRoomFor m p n = some (m', none)) : sdscatlen m p t n = some (m', none) := by
  obtain ⟨-, h, hh⟩ := makeRoom_null hn
  unfold sdscatlen
  rw [hh, Option.bind_some, hn]
  rfl

/-- An append that gets NULL. -/
theorem append_getsNull (hn : (Appending.append a).GetsNull w x) : ∃ m', m'.heap = w.mem.heap ∧
    w.append x a = some (⟨m', if a.stored = true then w.slices.set x none else w.slices⟩, some none) := by
  obtain ⟨p, t, n, m', hd, htext, hroom⟩ := hn
  have hnull : a.isNull w = false := by
    cases a with
    | slice s =>
      obtain ⟨q, hq, -⟩ := Option.bind_eq_some_iff.mp htext
      exact Option.isNone_eq_false_iff.mpr (by rw [hq]; rfl)
    | str | cstr | bytes | chr | num => rfl
  have hinit : w.initIfNeed x = some w := by
    unfold World.initIfNeed
    rw [hd]
  refine ⟨m', (makeRoom_null hroom).1, ?_⟩
  rw [append_eq hnull, hinit, Option.bind_some, htext, Option.bind_some, call_eq hd, sdscatlen_null hroom]
  rfl

/-- The loop writes through the NULL. -/
theorem fmtLoop_null (hn : FmtNull fmt σ f) : ∀ fuel, fmtLoop fmt fuel σ f = none := by
  have hroomNull : ∀ {m m' : Mem} {s : Ptr} {l : Nat}, sdsMakeRoomFor m s l = some (m', none) → room m s l = none := by
    intro m m' s l h
    unfold room
    rw [h]
    rfl
  induction hn with
  | byte hc h0 hg ha hn =>
    intro fuel
    cases fuel with
    | zero => rfl
    | succ fuel =>
      unfold fmtLoop
      rw [hc, Option.bind_some, if_neg h0, hg, Option.bind_some, if_pos ha, hroomNull hn]
      rfl
  | @text σ f l next h b m1 m s1 t hc hg hroom hc1 hnext hdir hsrc hb ha hn =>
    intro fuel
    cases fuel with
    | zero => rfl
    | succ fuel =>
      have hput : FmtState.put { σ with mem := m1, s := s1, args := σ.args.tail } t l = none := by
        unfold FmtState.put
        dsimp only
        rw [hb, Option.bind_some, if_pos ha, hroomNull hn]
        rfl
      unfold fmtLoop
      rw [hc, Option.bind_some, if_neg (by decide), hg, Option.bind_some, hroom, Option.bind_some]
      dsimp only
      rw [hc1, Option.bind_some, if_pos rfl, hnext, Option.bind_some, directive_arg hdir, hsrc, Option.bind_some]
      dsimp only
      rw [hput]
      rfl
  | @later σ σ' f f' h m1 s1 c c1 hc h0 hg hroom hc1 hturn _ ih =>
    intro fuel
    cases fuel with
    | zero => rfl
    | succ fuel =>
      unfold fmtLoop
      rw [hc, Option.bind_some, if_neg h0, hg, Option.bind_some, hroom, Option.bind_some]
      dsimp only
      rw [hc1, Option.bind_some]
      split_ifs at hturn ⊢
      · obtain ⟨next, hnext, hturn⟩ := Option.bind_eq_some_iff.mp hturn
        obtain ⟨σ1, hdir, he⟩ := Option.map_eq_some_iff.mp hturn
        cases he
        rw [hnext, Option.bind_some, hdir]
        exact ih fuel
      · obtain ⟨σ1, hput, he⟩ := Option.map_eq_some_iff.mp hturn
        cases he
        rw [hput]
        exact ih fuel

theorem appendFmt_getsNull {args : List VaArg} (hn : (Appending.appendFmt fmt args).GetsNull w x) :
    w.appendFmt x fmt args = none := by
  obtain ⟨p, h, hd, hg, hnull⟩ := hn
  have hcat : sdscatvfmt w.mem p fmt args = none := by
    unfold sdscatvfmt
    rw [hg, Option.bind_some]
    cases fmt.bytes w.mem with
    | none => rfl
    | some bs => exact fmtLoop_null hnull _
  unfold World.appendFmt World.initIfNeed
  rw [hd]
  dsimp only
  rw [Option.bind_some, call_eq hd, hcat]
  rfl

end Null

/-! ## Every reachable state -/

section Healthy

variable {w w' : World} {m m' : Mem} {x p q n : Nat} {o r : Option Ptr} {h b : Sdshdr} {t fmt : Src} {a : Arg}

/-- Only the heap counts. -/
theorem Mem.Healthy.congr (hm : m.Healthy) (hheap : m'.heap = m.heap) : m'.Healthy := by
  unfold Mem.Healthy
  rw [hheap]
  exact hm

/-- A block becomes a good string, wherever it was before. -/
theorem Mem.Healthy.update (hm : m.Healthy) (hget : m'.heap.get = Function.update m.heap.get q (some b))
    (hb : Sound b ∧ Terminated b) : m'.Healthy := by
  intro p h hp
  rw [hget] at hp
  by_cases hpq : p = q
  · rw [hpq, Function.update_self] at hp
    obtain rfl := Option.some.inj hp
    exact hb
  · rw [Function.update_of_ne hpq] at hp
    exact hm p h hp

theorem Mem.Healthy.sdsfree (hm : m.Healthy) (hr : m.sdsfree o = some m') : m'.Healthy :=
  fun p h hp => hm p h (get_of_sdsfree hr hp)

/-- A call that returns NULL leaves the heap; the others are those under an allocator that succeeds. -/
theorem Mem.Healthy.refused {c : Option (Mem × Option Ptr)} {k : Option (Mem × Option Ptr)} (hm : m.Healthy)
    (hc : Refused m c k) (hr : c = some (m', o)) (hk : ∀ q, k = some (m'.calm, some q) → m'.calm.Healthy) :
    m'.Healthy := by
  rcases hc m' o hr with ⟨-, hheap⟩ | ⟨q, -, hcalm⟩
  · exact hm.congr hheap
  · exact (hk q hcalm).congr rfl

theorem Mem.Healthy.sdsnewlen (hm : m.Healthy) (hr : sdsnewlen m t n = some (m', o)) : m'.Healthy := by
  refine hm.refused sdsnewlen_refused hr fun q hcalm => ?_
  obtain ⟨_, b, -, -, -, hget, hs, ht, -⟩ := sdsnewlen_cases rfl hcalm
  exact hm.update hget ⟨hs, ht⟩

theorem Mem.Healthy.replaced (hm : m.Healthy) (hr : Replaced m p m' r) : m'.Healthy := by
  obtain ⟨q, b, -, -, hmv, hs, ht⟩ := hr
  intro y h hy
  rw [hmv.get] at hy
  by_cases hyq : y = q
  · rw [hyq, Function.update_self] at hy
    obtain rfl := Option.some.inj hy
    exact ⟨hs, ht⟩
  · rw [Function.update_of_ne hyq] at hy
    by_cases hyp : y = p
    · rw [hyp, Function.update_self] at hy
      cases hy
    · rw [Function.update_of_ne hyp] at hy
      exact hm y h hy

/-- What `sdscatlen` does in a string with room leaves a good string. -/
theorem append_replaced (hf : m.fails = []) (hg : m.heap.get q = some b) (hs : Sound b) (hn : n ≤ b.sdsavail)
    (hr : ((m.memcpy q b.len t n).bind fun m =>
      (m.modify q fun b' => (b'.sdssetlen ((b.len + n) % 2 ^ 64)).write ((b.len + n) % 2 ^ 64) [some 0]).map
        (·, some q)) = some (m', r)) : Replaced m q m' r := by
  obtain ⟨m1, hcpy, -⟩ := Option.bind_eq_some_iff.mp hr
  obtain ⟨hmeet, bs, -, -, hread, -⟩ := memcpy_some hcpy
  obtain ⟨m2, he, hcat⟩ := append_isSome hf hg hs hn hmeet hread
  rw [he] at hr
  cases hr
  have hroom := hs.room
  exact hcat.replaced (by omega)

/-- A call of `sdscatlen` that returns leaves a good string. -/
theorem sdscatlen_cases (hf : m.fails = []) (hg : m.heap.get p = some h) (hs : Sound h)
    (hr : sdscatlen m p t n = some (m', r)) : Replaced m p m' r := by
  have hroomy : h.sdsavail < n → Roomy h.len n := by
    intro hn
    by_contra hno
    rw [sdscatlen_lost hf hg hs hn (.inr hno)] at hr
    cases hr
  unfold sdscatlen at hr
  rw [hg, Option.bind_some] at hr
  obtain ⟨m1, o, h1, ho⟩ := ifNotNull_inv hr
  rcases makeRoom_cases hf hg hs.len_lt h1 with ⟨hn, rfl, rfl⟩ | ⟨hn, q, b, rfl, -, hf1, hmv, hgrown⟩
  · obtain ⟨q, hq, hk⟩ := ho.resolve_left fun hnull => Option.some_ne_none _ hnull.1
    obtain rfl := Option.some.inj hq
    exact append_replaced hf hg hs hn hk
  · obtain ⟨q', hq, hk⟩ := ho.resolve_left fun hnull => Option.some_ne_none _ hnull.1
    obtain rfl := Option.some.inj hq
    obtain ⟨hsound, havail⟩ := hgrown.sound (hroomy hn)
    rw [← hgrown.len] at hk
    exact (append_replaced hf1 hmv.get_self hsound havail hk).after hmv

theorem Mem.Healthy.sdscatlen (hm : m.Healthy) (hr : sdscatlen m p t n = some (m', r)) : m'.Healthy := by
  obtain ⟨h, hg, -⟩ := Option.bind_eq_some_iff.mp hr
  have hcalm : m.calm.Healthy := hm.congr rfl
  exact hm.refused sdscatlen_refused hr fun q hq => hcalm.replaced (sdscatlen_cases rfl hg (hm p h hg).1 hq)

theorem Mem.Healthy.sdscatvfmt {args : List VaArg} (hm : m.Healthy) (hr : sdscatvfmt m p fmt args = some (m', r)) :
    m'.Healthy := by
  obtain ⟨h, hg, -⟩ := Option.bind_eq_some_iff.mp hr
  obtain ⟨q, -, hcalm⟩ := sdscatvfmt_calm hr
  have hgood : m'.calm.Healthy :=
    Mem.Healthy.replaced (m := m.calm) (hm.congr rfl) (sdscatvfmt_cases rfl hg (hm p h hg).1 hcalm)
  exact hgood.congr rfl

/-! ## The members keep the strings good -/

theorem healthy_construct (hm : m.Healthy) (hr : w.construct (sdsnewlen m t n) = some w') : w'.mem.Healthy := by
  obtain ⟨⟨m1, o⟩, hnew, rfl⟩ := Option.map_eq_some_iff.mp hr
  exact hm.sdsnewlen hnew

theorem healthy_init (hm : w.mem.Healthy) (hr : w.initIfNeed x = some w') : w'.mem.Healthy := by
  unfold World.initIfNeed at hr
  cases hd : w.data x with
  | some p =>
    rw [hd] at hr
    obtain rfl := Option.some.inj hr
    exact hm
  | none =>
    rw [hd] at hr
    obtain ⟨⟨m1, o⟩, hnew, rfl⟩ := Option.map_eq_some_iff.mp hr
    exact hm.sdsnewlen hnew

theorem healthy_call {f : Mem → Ptr → Option (Mem × Option Ptr)} {stored : Bool}
    (hf : ∀ p m' o, f w.mem p = some (m', o) → m'.Healthy) (hr : w.call x stored f = some (w', r)) :
    w'.mem.Healthy := by
  obtain ⟨p, -, hr⟩ := Option.bind_eq_some_iff.mp hr
  obtain ⟨⟨m1, o⟩, h1, he⟩ := Option.map_eq_some_iff.mp hr
  cases he
  exact hf p m1 _ h1

theorem healthy_append {o : Option (Option Ptr)} (hm : w.mem.Healthy) (hr : w.append x a = some (w', o)) :
    w'.mem.Healthy := by
  by_cases hnull : a.isNull w = true
  · cases a with
    | slice s =>
      have hd : w.data s = none := Option.isNone_iff_eq_none.mp hnull
      have hsame : w.appendSlice x s = some (w, none) := by
        unfold World.appendSlice
        rw [hd]
      obtain ⟨rfl, -⟩ := Prod.mk.inj (Option.some.inj (hsame.symm.trans hr))
      exact hm
    | str | cstr | bytes | chr | num => cases hnull
  · rw [append_eq (Bool.eq_false_iff.mpr hnull)] at hr
    obtain ⟨w1, hinit, hr⟩ := Option.bind_eq_some_iff.mp hr
    obtain ⟨tn, -, hr⟩ := Option.bind_eq_some_iff.mp hr
    obtain ⟨⟨w2, r⟩, hcall, he⟩ := Option.map_eq_some_iff.mp hr
    cases he
    exact healthy_call (fun p m' o h => (healthy_init hm hinit).sdscatlen h) hcall

theorem healthy_appendFmt {args : List VaArg} (hm : w.mem.Healthy) (hr : w.appendFmt x fmt args = some w') :
    w'.mem.Healthy := by
  obtain ⟨w1, hinit, hr⟩ := Option.bind_eq_some_iff.mp hr
  obtain ⟨⟨w2, r⟩, hcall, rfl⟩ := Option.map_eq_some_iff.mp hr
  exact healthy_call (fun p m' o h => (healthy_init hm hinit).sdscatvfmt h) hcall

/-- A release, and then what becomes of the pointers does not matter. -/
theorem healthy_release {f : Mem → World} (hf : ∀ m, (f m).mem = m) (hm : w.mem.Healthy)
    (hr : (w.mem.sdsfree o).map f = some w') : w'.mem.Healthy := by
  obtain ⟨m1, hfree, rfl⟩ := Option.map_eq_some_iff.mp hr
  rw [hf]
  exact hm.sdsfree hfree

theorem healthy_after {act : ValueAct} (hm : w.mem.Healthy) (hr : w.after act = some (some w')) : w'.mem.Healthy := by
  have hcalled := called_of_after hr
  generalize ho : some w' = o at hcalled
  cases hcalled with
  | default =>
    obtain rfl := Option.some.inj ho
    exact hm
  | ofCStr h => exact healthy_construct hm (h.trans ho.symm)
  | ofBytes h => exact healthy_construct hm (h.trans ho.symm)
  | appendFmt _ h => exact healthy_appendFmt hm (h.trans ho.symm)
  | copy =>
    obtain ⟨m1, hfree, hr⟩ := Option.bind_eq_some_iff.mp ho.symm
    obtain ⟨p, -, hr⟩ := Option.bind_eq_some_iff.mp hr
    obtain ⟨h, -, hr⟩ := Option.bind_eq_some_iff.mp hr
    exact healthy_construct (hm.sdsfree hfree) hr
  | move hs =>
    have hr := ho.symm
    unfold World.moveConstruct at hr
    rw [if_pos hs] at hr
    exact healthy_release (fun _ => rfl) hm hr
  | append =>
    obtain ⟨⟨w1, r⟩, happ, rfl⟩ := Option.map_eq_some_iff.mp ho.symm
    exact healthy_append hm happ
  | clear | destroy => exact healthy_release (fun _ => rfl) hm ho.symm
  | dup =>
    obtain ⟨p, -, hr⟩ := Option.bind_eq_some_iff.mp ho.symm
    obtain ⟨h, -, hr⟩ := Option.bind_eq_some_iff.mp hr
    exact healthy_construct hm hr
  | assign | moveAssign => cases ho

/-- In every reachable state the live strings are sound and terminated. -/
theorem healthy_of_reach {σ : FailState} (h : Reach failing σ) : ∀ w, σ = .running w → w.mem.Healthy := by
  apply h.invariant
  · rintro σ ⟨fails, rfl⟩ w hw
    cases hw
    intro p h hp
    cases hp
  · intro σ act σ' _ hinv hstep w' hw'
    subst hw'
    cases σ with
    | undefined => cases hstep
    | running w =>
      obtain ⟨o, ho, he⟩ := Option.map_eq_some_iff.mp (show (w.after act).map _ = some (FailState.running w') from hstep)
      cases o with
      | none => cases he
      | some w1 =>
        cases he
        exact healthy_after (hinv w rfl) ho

end Healthy

/-! ## After a failure -/

section Survives

variable {w : World} {x : Nat} {c : Appending}

/-- **A failed allocation leaves the string as it was** if and only if the overload drops the result: `append` of a
`char` or a `long long`. -/
theorem survives_iff (hw : Reach failing (.running w)) (hn : c.GetsNull w x) :
    Survives w x (c.run w x) ↔ c.drops = true := by
  have hgood : w.mem.Healthy := healthy_of_reach hw w rfl
  cases c with
  | appendFmt fmt args =>
    refine ⟨fun h => ?_, fun h => by cases h⟩
    obtain ⟨w', hrun, -⟩ := h
    rw [Appending.run, appendFmt_getsNull hn] at hrun
    cases hrun
  | append a =>
    obtain ⟨m', hheap, happ⟩ := append_getsNull hn
    obtain ⟨p, t, n, m1, hd, -, hroom⟩ := hn
    obtain ⟨-, h, hg⟩ := makeRoom_null hroom
    have hdrop : (Appending.append a).drops = !a.stored := rfl
    rw [Appending.run, happ, hdrop]
    cases a.stored with
    | true =>
      refine ⟨fun hs => ?_, fun h => by cases h⟩
      obtain ⟨w', hw', hdata, -⟩ := hs
      obtain rfl := Option.some.inj hw'
      have hset : World.data ⟨m', w.slices.set x none⟩ x = none := by
        rw [data_set (data_lt hd), Function.update_self]
      rw [hd] at hdata
      exact absurd (hset.symm.trans hdata) (by simp)
    | false =>
      refine ⟨fun _ => rfl, fun _ => ?_⟩
      have hstr : World.string ⟨m', w.slices⟩ x = w.string x := by
        refine string_congr rfl fun q _ => ?_
        show m'.heap.get q = _
        rw [hheap]
      have hold : w.string x = some h := by rw [string_of_data hd, hg]
      obtain ⟨hs, ht⟩ := hgood p h hg
      exact ⟨⟨m', w.slices⟩, rfl, rfl, h, h, hold, hstr.trans hold, hs, ht, List.prefix_refl _⟩

/-- One object, which holds `ab` in a string without free space, before an allocation that fails. -/
def World.abLast : World := ⟨⟨World.ab.mem.heap, [true]⟩, World.ab.slices⟩

theorem reach_abLast : Reach failing (.running World.abLast) := by
  have hinit : Reach failing (.running ⟨⟨⟨[]⟩, [false, true]⟩, []⟩) := Reach.init ⟨_, rfl⟩
  have hstep : failing.step (.running ⟨⟨⟨[]⟩, [false, true]⟩, []⟩) (.base (.ofBytes (.ext [some 97, some 98]) 2)) =
      some (.running World.abLast) := rfl
  exact hinit.step hstep

theorem getsNull_abLast {a : Arg} {t : Src} (ht : a.text World.abLast = some (t, 1)) :
    (Appending.append a).GetsNull World.abLast 0 :=
  ⟨0, t, 1, ⟨World.ab.mem.heap, []⟩, rfl, ht, rfl⟩

/-- `append('c')`: the NULL is dropped. -/
theorem survives_char : Survives World.abLast 0 ((Appending.append (.chr 99)).run World.abLast 0) :=
  (survives_iff reach_abLast (c := .append (.chr 99)) (getsNull_abLast rfl)).mpr rfl

/-- `append("c")`: the NULL is stored in `data`, and the old block is lost. -/
theorem append_not_survives : Reach failing (.running World.abLast) ∧
    (Appending.append (.str [99])).GetsNull World.abLast 0 ∧
    ¬ Survives World.abLast 0 ((Appending.append (.str [99])).run World.abLast 0) := by
  refine ⟨reach_abLast, getsNull_abLast rfl, ?_⟩
  rintro ⟨w', hw', hdata, -⟩
  cases hw'
  cases hdata

end Survives

end BeanRaft.Slice
