import BeanRaft.Event.Registration

/-!
# BeanRaft.Event.Atomic — a refused registration

`addFileEvent` sets the callbacks of the entry before it asks the kernel.  Here `epoll_ctl` may fail in any call, for a
reason of its own or because the descriptor is already there.

* `addFileEvent_entry`: what a call does to the entries, whatever the kernel says.
* `Atomic`: a refused call has changed no entry, and an event that is registered reaches its callback.
* `atomic_iff`: this holds all along a run if and only if no refused call names another callback than the one there.
-/

namespace BeanRaft.Event

open Lts

/-! ## The system -/

/-- The entry of a descriptor; one behind the end of the table is unused. -/
def EventLoop.entry (el : EventLoop) (fd : Nat) : FileEvent := el.events[fd]?.getD .new

def FileEvent.callback (event : FileEvent) : Interest → Option Fn
  | .read => event.readfn
  | .write => event.writefn

/-- A loop, and when the last step was a call of `addFileEvent` the table before it and the value returned. -/
structure Attempted where
  loop : Loop
  last : Option (EventLoop × Int)

/-- The transition function; the flag says that `epoll_ctl` fails for a reason of its own. -/
def Attempted.step (s : Attempted) : Act × Bool → Option Attempted
  | (.add fd mask data fn, fails) =>
    (s.loop.el.addFileEvent fd mask data fn fails).map fun r =>
      ⟨s.loop.add fd mask data fn r, some (s.loop.el, r.2)⟩
  | (.del fd mask, fails) =>
    (s.loop.el.delFileEvent fd mask fails).map fun el =>
      ⟨{ s.loop with el := el, registry := s.loop.registry.del fd mask }, none⟩
  | (act, _) => (s.loop.step act).map fun loop => ⟨loop, none⟩

def Attempted.fresh (n : Nat) : Attempted := ⟨.fresh n, none⟩

/-- The loop over a kernel that may fail. -/
def attempts : System Attempted (Act × Bool) where
  init s := ∃ n, s = .fresh n
  step := Attempted.step

/-- A refused call has changed no entry, and the calls for registered interests were of their callbacks. -/
structure Atomic (s : Attempted) : Prop where
  refused : ∀ before, s.last = some (before, EL_ERR) → ∀ fd, s.loop.el.entry fd = before.entry fd
  reached : ∀ c ∈ s.loop.calls, ∀ fn data, c.registered = some (fn, data) → c.fn = fn

/-- The kernel takes the descriptor, or the callbacks that the mask names are already `fn`. -/
def AddOk (s : Attempted) : Act × Bool → Prop
  | (.add fd mask _ fn, fails) =>
    (fails = false ∧ s.loop.el.epoll fd = none) ∨
      ∀ i : Interest, has mask i.bit = true → (s.loop.el.entry fd).callback i = fn
  | _ => True

section Entries

variable {el el' : EventLoop} {event : FileEvent} {fd : Nat} {mask : Bits} {data : Ptr} {fn : Option Fn} {fails : Bool}
  {ret : Int}

/-! ## What addFileEvent does to the entries -/

theorem callback_set (i : Interest) :
    (event.set mask fn).callback i = if has mask i.bit = true then fn else event.callback i := by
  cases i <;> rfl

/-- An entry stays as it is if and only if the callbacks that the mask names do. -/
theorem set_eq_self : event.set mask fn = event ↔ ∀ i : Interest, has mask i.bit = true → event.callback i = fn := by
  constructor
  · intro h i hi
    have hset : (event.set mask fn).callback i = if has mask i.bit = true then fn else event.callback i := callback_set i
    rwa [h, if_pos hi] at hset
  · intro h
    have hread := h .read
    have hwrite := h .write
    unfold FileEvent.set
    obtain ⟨mask0, readfn, writefn, fd, client_data⟩ := event
    simp only [FileEvent.mk.injEq, true_and, and_true]
    constructor
    · split_ifs with hr
      · exact (hread hr).symm
      · rfl
    · split_ifs with hw
      · exact (hwrite hw).symm
      · rfl

/-- A table that grows keeps its entries, and what is behind them stays unused. -/
theorem resize_entries {events events' : List FileEvent} {n : Nat} (h : resize events n = some events')
    (hin : events'[fd]? = some event) (hfd : events.length ≤ fd) (i : Nat) :
    events'[i]?.getD .new = events[i]?.getD .new := by
  unfold resize at h
  split at h
  · cases h
  · cases h
    have hlt := (List.getElem?_eq_some_iff.mp hin).1
    rw [List.length_append, List.length_take, List.length_replicate] at hlt
    rw [List.take_of_length_le (by omega)]
    by_cases hi : i < events.length
    · rw [List.getElem?_append_left hi]
    · rw [List.getElem?_append_right (Nat.le_of_not_lt hi), List.getElem?_eq_none (Nat.le_of_not_lt hi),
        List.getElem?_replicate]
      split_ifs <;> rfl

theorem grow_entries {events : List FileEvent} (hg : el.grow fd = some events) (hin : events[fd]? = some event) (i : Nat) :
    events[i]?.getD .new = el.entry i := by
  by_cases hsize : fd ≥ el.events.length
  · simp only [EventLoop.grow, if_pos hsize] at hg
    exact resize_entries hg hin hsize i
  · simp only [EventLoop.grow, if_neg hsize, Option.some.injEq] at hg
    rw [← hg]
    rfl

/-- The entry of the descriptor gets the callbacks, whatever the call returns. -/
theorem addFileEvent_entry (h : el.addFileEvent fd mask data fn fails = some (el', ret)) :
    el'.entry = Function.update el.entry fd ((el.entry fd).set mask fn) := by
  obtain ⟨events, event, hg, he, hev, -⟩ := addFileEvent_cases h
  have hsame := grow_entries hg he
  have hevent : el.entry fd = event := by
    rw [← hsame, he]
    rfl
  funext i
  unfold EventLoop.entry
  rw [hev, List.getElem?_set]
  by_cases hi : i = fd
  · subst hi
    rw [Function.update_self, if_pos rfl, if_pos (List.getElem?_eq_some_iff.mp he).1]
    show event.set mask fn = (el.entry i).set mask fn
    rw [hevent]
  · rw [Function.update_of_ne hi, if_neg (Ne.symm hi), hsame]
    rfl

/-- The kernel is always asked to add. -/
theorem addFileEvent_ret (hmask : ∀ event ∈ el.events, event.mask = EL_NONE)
    (h : el.addFileEvent fd mask data fn fails = some (el', ret)) :
    (ret = EL_OK ∧ fails = false ∧ el.epoll fd = none) ∨ (ret = EL_ERR ∧ ¬ (fails = false ∧ el.epoll fd = none)) := by
  obtain ⟨events, event, hg, he, -, hret⟩ := addFileEvent_cases h
  have hnone : event.mask = EL_NONE := by
    rcases grow_entry hg he with hold | hnew
    · exact hmask event (List.mem_of_getElem? hold)
    · rw [hnew]
      rfl
  rw [if_pos hnone] at hret
  unfold epoll_ctl at hret
  by_cases hok : fails = false ∧ el.epoll fd = none
  · rw [hok.1, hok.2] at hret
    rcases hret with ⟨-, -, hn⟩ | ⟨hret, -⟩
    · cases hn
    · exact .inl ⟨hret, hok⟩
  · rcases hret with ⟨hret, -, -⟩ | ⟨-, hk⟩
    · exact .inr ⟨hret, hok⟩
    · exfalso
      cases fails with
      | true => cases hk
      | false =>
        cases hfd : el.epoll fd with
        | none => exact hok ⟨rfl, hfd⟩
        | some ee =>
          rw [hfd] at hk
          cases hk

end Entries

section Atomic

variable {s s' : Loop} {a a' : Attempted}

/-! ## What a step keeps -/

/-- A turn of the dispatch calls nothing, or the callback of an entry. -/
theorem next_calls (h : s.step .next = some s') :
    s'.calls = s.calls ∨ ∃ fd i data, s'.calls = s.calls ++ [⟨fd, i, (s.el.entry fd).callback i, data, s.registry fd i⟩] := by
  simp only [Loop.step] at h
  split at h
  · cases h
    exact .inl rfl
  · rename_i e rest _
    obtain ⟨event, he, rfl⟩ := Option.map_eq_some_iff.mp h
    split_ifs
    · refine .inr ⟨e.data_fd, .read, event.client_data, ?_⟩
      unfold EventLoop.entry
      rw [he]
      rfl
    · exact .inl rfl
  · rename_i e moved rest _
    unfold Loop.writeHalf at h
    split_ifs at h
    · obtain ⟨event, he, rfl⟩ := Option.map_eq_some_iff.mp h
      refine .inr ⟨e.data_fd, .write, event.client_data, ?_⟩
      unfold EventLoop.entry
      rw [he]
      rfl
    · cases h
      exact .inl rfl
  · cases h
  · cases h

/-- No mask is stored, and the callbacks of the registered interests are in the table. -/
structure Attempted.Kept (a : Attempted) : Prop where
  masks : ∀ event ∈ a.loop.el.events, event.mask = EL_NONE
  agree : ∀ fd i fn data, a.loop.registry fd i = some (fn, data) → (a.loop.el.entry fd).callback i = fn
  atomic : Atomic a

theorem Attempted.kept_fresh (n : Nat) : (Attempted.fresh n).Kept where
  masks event he := by
    rw [List.eq_of_mem_replicate he]
    rfl
  agree fd i fn data h := by cases h
  atomic := by
    constructor
    · intro before h
      cases h
    · intro c hc
      cases hc

/-- A step that leaves the table alone, and calls nothing but callbacks of entries. -/
theorem Attempted.Kept.table (h : a.Kept) (hel : a'.loop.el = a.loop.el)
    (hreg : ∀ fd i r, a'.loop.registry fd i = some r → a.loop.registry fd i = some r) (hlast : a'.last = none)
    (hcalls : ∀ c ∈ a'.loop.calls, c ∈ a.loop.calls ∨
      c.fn = (a.loop.el.entry c.fd).callback c.interest ∧ c.registered = a.loop.registry c.fd c.interest) :
    a'.Kept := by
  refine ⟨by rw [hel]; exact h.masks, fun fd i fn data hr => ?_, fun before hb => ?_, fun c hc fn data hr => ?_⟩
  · rw [hel]
    exact h.agree fd i fn data (hreg fd i _ hr)
  · rw [hlast] at hb
    cases hb
  · rcases hcalls c hc with hold | ⟨hfn, hregistered⟩
    · exact h.atomic.reached c hold fn data hr
    · rw [hfn]
      exact h.agree c.fd c.interest fn data (hregistered.symm.trans hr)

/-- The state after a call of `addFileEvent`. -/
theorem Attempted.Kept.add {fd : Nat} {mask : Bits} {data : Ptr} {fn : Option Fn} {fails : Bool} {el : EventLoop}
    {ret : Int} (h : a.Kept) (hok : AddOk a (.add fd mask data fn, fails))
    (hadd : a.loop.el.addFileEvent fd mask data fn fails = some (el, ret)) :
    Attempted.Kept ⟨a.loop.add fd mask data fn (el, ret), some (a.loop.el, ret)⟩ := by
  have hentry := addFileEvent_entry hadd
  have hmasks := addFileEvent_unmasked h.masks hadd
  rcases addFileEvent_ret h.masks hadd with ⟨rfl, -⟩ | ⟨rfl, hrefused⟩
  · refine ⟨hmasks, fun fd' i fn' data' hr => ?_, fun before hb => ?_, h.atomic.reached⟩
    · have hr' : (if fd' = fd ∧ has mask i.bit = true then some (fn, data) else a.loop.registry fd' i) =
        some (fn', data') := hr
      show (el.entry fd').callback i = fn'
      rw [hentry]
      by_cases hfd : fd' = fd
      · subst hfd
        rw [Function.update_self, callback_set]
        by_cases hbit : has mask i.bit = true
        · rw [if_pos ⟨rfl, hbit⟩] at hr'
          cases hr'
          exact if_pos hbit
        · rw [if_neg fun hnew => hbit hnew.2] at hr'
          rw [if_neg hbit]
          exact h.agree fd' i fn' data' hr'
      · rw [if_neg fun hnew => hfd hnew.1] at hr'
        rw [Function.update_of_ne hfd]
        exact h.agree fd' i fn' data' hr'
    · cases hb
  · -- the callbacks were there before
    have hsame : el.entry = a.loop.el.entry := by
      rw [hentry, set_eq_self.mpr (hok.resolve_left hrefused), Function.update_eq_self]
    refine ⟨hmasks, fun fd' i fn' data' hr => ?_, fun before hb fd' => ?_, h.atomic.reached⟩
    · show (el.entry fd').callback i = fn'
      rw [hsame]
      exact h.agree fd' i fn' data' hr
    · cases hb
      exact congrFun hsame fd'

theorem Attempted.Kept.step {act : Act × Bool} (h : a.Kept) (hok : AddOk a act) (hs : a.step act = some a') :
    a'.Kept := by
  obtain ⟨act, fails⟩ := act
  cases act with
  | add fd mask data fn =>
    obtain ⟨⟨el, ret⟩, hadd, rfl⟩ := Option.map_eq_some_iff.mp hs
    exact h.add hok hadd
  | del fd mask =>
    obtain ⟨el, hdel, rfl⟩ := Option.map_eq_some_iff.mp hs
    obtain rfl := delFileEvent_unmasked h.masks hdel
    refine h.table rfl (fun fd' i r hr => ?_) rfl fun c hc => .inl hc
    have hr' : (if fd' = fd ∧ has mask i.bit = true then none else a.loop.registry fd' i) = some r := hr
    split_ifs at hr'
    exact hr'
  | poll ready =>
    obtain ⟨loop, hloop, rfl⟩ := Option.map_eq_some_iff.mp hs
    obtain ⟨hel, hreg, -⟩ := poll_table hloop
    have hcalls : loop.calls = a.loop.calls := by
      simp only [Loop.step, Option.ite_none_right_eq_some, Option.some.injEq] at hloop
      rw [← hloop.2]
    refine h.table hel (fun fd' i r hr => ?_) rfl fun c hc => .inl ?_
    · rwa [hreg] at hr
    · rwa [hcalls] at hc
  | next =>
    obtain ⟨loop, hloop, rfl⟩ := Option.map_eq_some_iff.mp hs
    obtain ⟨hel, hreg, -⟩ := next_table hloop
    refine h.table hel (fun fd' i r hr => ?_) rfl fun c hc => ?_
    · rwa [hreg] at hr
    · rcases next_calls hloop with hsame | ⟨fd, i, data, hnew⟩
      · exact .inl (by rwa [hsame] at hc)
      · have hc' : c ∈ loop.calls := hc
        rw [hnew] at hc'
        rcases List.mem_append.mp hc' with hold | hlast
        · exact .inl hold
        · rw [List.mem_singleton.mp hlast]
          exact .inr ⟨rfl, rfl⟩

/-- A refused call that names another callback changes the entry. -/
theorem Attempted.Kept.bad {act : Act × Bool} (h : a.Kept) (hno : ¬ AddOk a act) (hs : a.step act = some a') :
    ¬ Atomic a' := by
  obtain ⟨act, fails⟩ := act
  cases act with
  | add fd mask data fn =>
    obtain ⟨hrefused, hother⟩ := not_or.mp hno
    obtain ⟨⟨el, ret⟩, hadd, rfl⟩ := Option.map_eq_some_iff.mp hs
    intro hat
    rcases addFileEvent_ret h.masks hadd with ⟨-, hok⟩ | ⟨rfl, -⟩
    · exact hrefused hok
    · have hsame : el.entry fd = a.loop.el.entry fd := hat.refused a.loop.el rfl fd
      rw [addFileEvent_entry hadd, Function.update_self] at hsame
      exact hother (set_eq_self.mp hsame)
  | del | poll | next => exact absurd trivial hno

/-- **When a refused `addFileEvent` leaves no trace**: in every state of a run, if and only if each call is accepted or
names callbacks that are already there. -/
theorem atomic_iff (n : Nat) (acts : List (Act × Bool)) :
    Always attempts Atomic (.fresh n) acts ↔ StepsOk attempts AddOk (.fresh n) acts :=
  always_iff_stepsOk (fun _ h => h.atomic) (fun _ _ _ h hok hs => h.step hok hs) (fun _ _ _ h hno hs => h.bad hno hs)
    (Attempted.kept_fresh n) acts

/-- A reader, and then another one for the same descriptor. -/
def twoReaders : List (Act × Bool) :=
  [(.add 3 EL_READABLE NULL (some 1), false), (.add 3 EL_READABLE NULL (some 2), false)]

/-- The second reader is refused because the descriptor is there, and takes over the events of the first. -/
theorem twoReaders_not_atomic : ¬ Always attempts Atomic (.fresh 8) twoReaders := by
  intro h
  have hrun : ((attempts.exec (.fresh 8) twoReaders).map fun s =>
      (s.last.map fun r => ((r.1.entry 3).readfn, r.2), (s.loop.el.entry 3).readfn)) =
      some (some (some 1, EL_ERR), some 2) := by decide
  obtain ⟨s, hs, hv⟩ := Option.map_eq_some_iff.mp hrun
  simp only [Prod.mk.injEq] at hv
  obtain ⟨⟨before, ret⟩, hlast, hbefore⟩ := Option.map_eq_some_iff.mp hv.1
  simp only [Prod.mk.injEq] at hbefore
  obtain ⟨hfn, rfl⟩ := hbefore
  have hsame := (h.exec hs).refused before hlast 3
  rw [hsame, hfn] at hv
  exact absurd hv.2 (by decide)

end Atomic

end BeanRaft.Event
