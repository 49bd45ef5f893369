import BeanRaft.Event.EventLoop

/-!
# BeanRaft.Event.Registration — do the table and the kernel agree with what was registered?

* `addFileEvent_cases`, `delFileEvent_cases`: what a call does to the table and to the kernel.
* `Coherent`: the stored masks and the kernel's sets are those of the registry, and no call was refused.
* `coherent_iff`: this is so exactly as long as `addFileEvent` is never called.  No call stores a mask, so after the
  first one the table denies what was registered.
-/

namespace BeanRaft.Event

open Lts

variable {el el' : EventLoop} {s s' : Loop}

/-! ## The two calls -/

theorem resize_entry {events events' : List FileEvent} {n i : Nat} {event : FileEvent}
    (h : resize events n = some events') (hi : events'[i]? = some event) : events[i]? = some event ∨ event = .new := by
  unfold resize at h
  split at h
  · simp at h
  · cases h
    rw [List.getElem?_append] at hi
    split at hi
    · rw [List.getElem?_take] at hi
      split at hi
      · exact .inl hi
      · simp at hi
    · exact .inr (List.eq_of_mem_replicate (List.mem_of_getElem? hi))

/-- `grow` keeps the entries and adds unused ones. -/
theorem grow_entry {fd i : Nat} {events : List FileEvent} {event : FileEvent} (h : el.grow fd = some events)
    (hi : events[i]? = some event) : el.events[i]? = some event ∨ event = .new := by
  by_cases hsize : fd ≥ el.events.length
  · simp only [EventLoop.grow, if_pos hsize] at h
    exact resize_entry h hi
  · simp only [EventLoop.grow, if_neg hsize, Option.some.injEq] at h
    rw [h]
    exact .inl hi

/-- `addFileEvent` sets the callbacks of the entry and asks the kernel, by the stored mask, to add or to modify. -/
theorem addFileEvent_cases {fd : Nat} {mask : Bits} {data : Ptr} {fn : Option Fn} {fails : Bool} {ret : Int}
    (h : el.addFileEvent fd mask data fn fails = some (el', ret)) :
    ∃ events event, el.grow fd = some events ∧ events[fd]? = some event ∧
      el'.events = events.set fd (event.set mask fn) ∧
      ((ret = EL_ERR ∧ el'.epoll = el.epoll ∧
          epoll_ctl el.epoll (if event.mask = EL_NONE then .add else .mod) fd ⟨interestBits mask, fd⟩ fails = none) ∨
        (ret = EL_OK ∧
          epoll_ctl el.epoll (if event.mask = EL_NONE then .add else .mod) fd ⟨interestBits mask, fd⟩ fails =
            some el'.epoll)) := by
  obtain ⟨events, hg, h⟩ := Option.bind_eq_some_iff.mp h
  obtain ⟨event, he, h⟩ := Option.map_eq_some_iff.mp h
  refine ⟨events, event, hg, he, ?_⟩
  dsimp only at h
  split at h
  · rename_i hctl
    cases h
    exact ⟨rfl, .inl ⟨rfl, rfl, hctl⟩⟩
  · rename_i k hctl
    cases h
    exact ⟨rfl, .inr ⟨rfl, hctl⟩⟩

/-- `delFileEvent` returns at once for a descriptor whose stored mask is empty. -/
theorem delFileEvent_unmasked {fd : Nat} {mask : Bits} {fails : Bool}
    (hmask : ∀ event ∈ el.events, event.mask = EL_NONE) (h : el.delFileEvent fd mask fails = some el') : el' = el := by
  unfold EventLoop.delFileEvent at h
  split_ifs at h
  · exact (Option.some.inj h).symm
  · obtain ⟨event, he, h⟩ := Option.map_eq_some_iff.mp h
    rw [if_pos (hmask event (List.mem_of_getElem? he))] at h
    exact h.symm

/-- No call stores a mask. -/
theorem addFileEvent_unmasked {fd : Nat} {mask : Bits} {data : Ptr} {fn : Option Fn} {fails : Bool} {ret : Int}
    (hmask : ∀ event ∈ el.events, event.mask = EL_NONE)
    (h : el.addFileEvent fd mask data fn fails = some (el', ret)) : ∀ event ∈ el'.events, event.mask = EL_NONE := by
  obtain ⟨events, event, hg, he, hev, -⟩ := addFileEvent_cases h
  have hall : ∀ e ∈ events, e.mask = EL_NONE := by
    intro e hin
    obtain ⟨i, hi⟩ := List.mem_iff_getElem?.mp hin
    rcases grow_entry hg hi with hold | hnew
    · exact hmask e (List.mem_of_getElem? hold)
    · rw [hnew]
      rfl
  intro e hin
  rw [hev] at hin
  rcases List.mem_or_eq_of_mem_set hin with hin | rfl
  · exact hall e hin
  · exact hall event (List.mem_of_getElem? he)

/-! ## What an action can do to the table -/

/-- The dispatch leaves the table, the kernel and the registry alone. -/
theorem next_table (h : s.step .next = some s') :
    s'.el = s.el ∧ s'.registry = s.registry ∧ s'.refused = s.refused := by
  simp only [Loop.step] at h
  split at h
  · cases h
    exact ⟨rfl, rfl, rfl⟩
  · obtain ⟨event, -, rfl⟩ := Option.map_eq_some_iff.mp h
    split_ifs <;> exact ⟨rfl, rfl, rfl⟩
  · unfold Loop.writeHalf at h
    split_ifs at h
    · obtain ⟨event, -, rfl⟩ := Option.map_eq_some_iff.mp h
      exact ⟨rfl, rfl, rfl⟩
    · cases h
      exact ⟨rfl, rfl, rfl⟩
  · simp at h
  · simp at h

theorem poll_table {ready : List (Nat × Bits)} (h : s.step (.poll ready) = some s') :
    s'.el = s.el ∧ s'.registry = s.registry ∧ s'.refused = s.refused := by
  simp only [Loop.step, Option.ite_none_right_eq_some, Option.some.injEq] at h
  rw [← h.2]
  exact ⟨rfl, rfl, rfl⟩

/-! ## The property -/

/-- The table and the kernel hold what was registered, and every registration was accepted. -/
structure Coherent (s : Loop) : Prop where
  mask : ∀ fd event, s.el.events[fd]? = some event → event.mask = s.registry.mask fd
  readable : ∀ fd ee, s.el.epoll fd = some ee →
    (has ee.events Linux.EPOLLIN = true ↔ has (s.registry.mask fd) EL_READABLE = true)
  writable : ∀ fd ee, s.el.epoll fd = some ee →
    (has ee.events Linux.EPOLLOUT = true ↔ has (s.registry.mask fd) EL_WRITABLE = true)
  absent : ∀ fd, s.el.epoll fd = none ↔ s.registry.mask fd = EL_NONE
  accepted : s.refused = false

theorem mask_none (fd : Nat) : Registry.mask (fun _ _ => none) fd = EL_NONE := by
  simp [Registry.mask, EL_NONE]

/-- Nothing was ever registered. -/
structure Untouched (s : Loop) : Prop where
  masks : ∀ event ∈ s.el.events, event.mask = EL_NONE
  epoll : s.el.epoll = fun _ => none
  registry : s.registry = fun _ _ => none
  accepted : s.refused = false

def Act.isAdd : Act → Bool
  | .add _ _ _ _ => true
  | _ => false

theorem coherent_of_untouched (h : Untouched s) : Coherent s := by
  have hmask : ∀ fd, s.registry.mask fd = EL_NONE := by
    intro fd
    rw [h.registry]
    exact mask_none fd
  have hepoll : ∀ fd, s.el.epoll fd = none := by
    intro fd
    rw [h.epoll]
  refine ⟨fun fd event he => ?_, fun fd ee he => ?_, fun fd ee he => ?_, fun fd => ?_, h.accepted⟩
  · rw [hmask, h.masks event (List.mem_of_getElem? he)]
  · rw [hepoll] at he
    simp at he
  · rw [hepoll] at he
    simp at he
  · rw [hepoll, hmask]
    exact ⟨fun _ => rfl, fun _ => rfl⟩

theorem untouched_step {a : Act} (h : Untouched s) (ha : a.isAdd = false) (hs : s.step a = some s') :
    Untouched s' := by
  have same : s'.el = s.el ∧ s'.registry = s.registry ∧ s'.refused = s.refused → Untouched s' := by
    rintro ⟨h1, h2, h3⟩
    exact ⟨by rw [h1]; exact h.masks, by rw [h1]; exact h.epoll, by rw [h2]; exact h.registry,
      by rw [h3]; exact h.accepted⟩
  cases a with
  | add => cases ha
  | del fd mask =>
    obtain ⟨el, hel, rfl⟩ := Option.map_eq_some_iff.mp hs
    obtain rfl := delFileEvent_unmasked h.masks hel
    refine same ⟨rfl, ?_, rfl⟩
    funext fd' i
    show (if _ then _ else _) = _
    rw [h.registry]
    split_ifs <;> rfl
  | poll ready => exact same (poll_table hs)
  | next => exact same (next_table hs)

/-- After the first registration the stored mask is still empty, or the kernel knows a descriptor without
interests. -/
theorem not_coherent_add {fd : Nat} {mask : Bits} {data : Ptr} {fn : Option Fn} (h : Untouched s)
    (hs : s.step (.add fd mask data fn) = some s') : ¬ Coherent s' := by
  intro hc
  obtain ⟨⟨el, ret⟩, hadd, rfl⟩ := Option.map_eq_some_iff.mp hs
  obtain ⟨events, event, hg, he, hev, hret⟩ := addFileEvent_cases hadd
  have hzero := addFileEvent_unmasked h.masks hadd
  by_cases hm : (s.add fd mask data fn (el, ret)).registry.mask fd = EL_NONE
  · -- the descriptor is in the kernel, or the call was refused
    have habs := (hc.absent fd).mpr hm
    have hold : event.mask = EL_NONE := by
      rcases grow_entry hg he with hold | hnew
      · exact h.masks event (List.mem_of_getElem? hold)
      · rw [hnew]
        rfl
    have hctl : epoll_ctl s.el.epoll .add fd ⟨interestBits mask, fd⟩ false =
        some (Function.update s.el.epoll fd (some ⟨interestBits mask, fd⟩)) := by
      rw [h.epoll]
      rfl
    rw [if_pos hold, hctl] at hret
    rcases hret with ⟨-, -, hn⟩ | ⟨-, hk⟩
    · simp at hn
    · have hpres : el.epoll fd = some ⟨interestBits mask, fd⟩ := by
        rw [← Option.some.inj hk, Function.update_self]
      have habs' : el.epoll fd = none := habs
      rw [hpres] at habs'
      simp at habs'
  · -- the entry of the descriptor is there, with an empty mask
    have hlt : fd < events.length := (List.getElem?_eq_some_iff.mp he).1
    have hentry : el.events[fd]? = some (event.set mask fn) := by
      rw [hev, List.getElem?_set_self hlt]
    refine hm ?_
    rw [← hc.mask fd _ hentry]
    exact hzero _ (List.mem_of_getElem? hentry)

theorem untouched_fresh (n : Nat) : Untouched (.fresh n) where
  masks event he := by
    rw [List.eq_of_mem_replicate he]
    rfl
  epoll := rfl
  registry := rfl
  accepted := rfl

/-- **When the table and the kernel agree with what was registered**: in every state of a run, if and only if the
run makes no call of `addFileEvent`. -/
theorem coherent_iff (n : Nat) (acts : List Act) :
    Always eventLoop Coherent (.fresh n) acts ↔ StepsOk eventLoop (fun _ a => a.isAdd = false) (.fresh n) acts := by
  refine always_iff_stepsOk (I := Untouched) (fun s h => coherent_of_untouched h)
    (fun s a s' h ha hs => untouched_step h ha hs) ?_ (untouched_fresh n) acts
  intro s a s' h ha hs
  cases a with
  | add fd mask data fn => exact not_coherent_add h hs
  | del => exact absurd rfl ha
  | poll => exact absurd rfl ha
  | next => exact absurd rfl ha

/-- One reader is registered. -/
theorem oneReader_not_coherent : ¬ Always eventLoop Coherent (.fresh 8) [.add 3 EL_READABLE NULL (some 1)] := by
  rintro ⟨-, h⟩
  have hmask : (((Loop.fresh 8).step (.add 3 EL_READABLE NULL (some 1))).map fun s =>
      (s.el.events[3]?.map FileEvent.mask, s.registry.mask 3)) = some (some EL_NONE, EL_READABLE) := by decide
  obtain ⟨s, hs, hv⟩ := Option.map_eq_some_iff.mp hmask
  simp only [Prod.mk.injEq] at hv
  obtain ⟨event, he, hem⟩ := Option.map_eq_some_iff.mp hv.1
  have hc := (h s hs).mask 3 event he
  rw [hem, hv.2] at hc
  revert hc
  decide

end BeanRaft.Event
