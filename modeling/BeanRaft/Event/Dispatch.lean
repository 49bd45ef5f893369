import BeanRaft.Event.Registration

/-!
# BeanRaft.Event.Dispatch — does the dispatch only reach live registrations?

* `Dispatched`: every callback that was called was not empty, and it and its data pointer were those registered for
  the interest at that moment; and the reference through which a write callback is read is valid.
* `Faithful`: the conditions on the calls of the users and on the kernel's report under which this is so.  The loop
  stores no data pointer and no mask, deletes nothing, and takes an error or a hang-up for a writable descriptor.
* `Served`: the invariant of the runs that meet `Faithful`.
-/

namespace BeanRaft.Event

open Lts

variable {s s' : Loop} {a : Act}

/-! ## The bits of the masks -/

theorem has_interestBits_in (mask : Bits) : has (interestBits mask) EPOLLIN = has mask EL_READABLE := by
  unfold interestBits
  cases has mask EL_READABLE <;> cases has mask EL_WRITABLE <;> decide

theorem has_interestBits_out (mask : Bits) : has (interestBits mask) EPOLLOUT = has mask EL_WRITABLE := by
  unfold interestBits
  cases has mask EL_READABLE <;> cases has mask EL_WRITABLE <;> decide

theorem has_readyMask_readable (events : Bits) : has (readyMask events) EL_READABLE = has events EPOLLIN := by
  unfold readyMask
  cases has events EPOLLIN <;> cases has events EPOLLOUT <;> cases has events EPOLLERR <;>
    cases has events EPOLLHUP <;> decide

theorem has_readyMask_writable (events : Bits) :
    has (readyMask events) EL_WRITABLE = (has events EPOLLOUT || has events EPOLLERR || has events EPOLLHUP) := by
  unfold readyMask
  cases has events EPOLLIN <;> cases has events EPOLLOUT <;> cases has events EPOLLERR <;>
    cases has events EPOLLHUP <;> decide

/-- A reported bit that is neither an error nor a hang-up is one of the kernel's set. -/
theorem has_of_reported {bits events x : Bits} (h : bits &&& (events ||| EPOLLERR ||| EPOLLHUP) = bits)
    (he : EPOLLERR &&& x = 0) (hh : EPOLLHUP &&& x = 0) (hx : has bits x = true) : has events x = true := by
  have hand : (events ||| EPOLLERR ||| EPOLLHUP) &&& x = events &&& x := by
    rw [BitVec.and_or_distrib_right, BitVec.and_or_distrib_right, he, hh]
    exact (BitVec.or_zero).trans BitVec.or_zero
  simp only [has, bne_iff_ne, ne_eq] at hx ⊢
  intro h0
  rw [← h, BitVec.and_assoc, hand, h0] at hx
  exact hx BitVec.and_zero

/-! ## The property and its condition -/

/-- The call reached a registered interest, with the function and the data pointer of the registration. -/
def Call.Live (c : Call) : Prop := c.fn.isSome = true ∧ c.registered = some (c.fn, c.data)

structure Dispatched (s : Loop) : Prop where
  live : ∀ c ∈ s.calls, c.Live
  held : ∀ e moved rest, s.pc = .half e moved rest → has (readyMask e.events) EL_WRITABLE = true → moved = false

/-- The conditions on one action.  A registration is the first of its descriptor, with a function, without a data
pointer, and does not move the table under a read callback; a deletion finds nothing to delete; an error or a
hang-up is reported only for a descriptor with a write callback. -/
def Faithful (s : Loop) : Act → Prop
  | .add fd _ data fn => data = NULL ∧ fn.isSome = true ∧ s.el.epoll fd = none ∧
    ∀ e moved rest, s.pc = .half e moved rest → fd < s.el.events.length
  | .del fd mask => ∀ i : Interest, has mask i.bit = true → s.registry fd i = none
  | .poll ready => ∀ r ∈ ready, has r.2 EPOLLERR = true ∨ has r.2 EPOLLHUP = true →
    (s.registry r.1 .write).isSome = true
  | .next => True

instance (s : Loop) : ∀ a, Decidable (Faithful s a)
  | .add fd _ data fn =>
    have : Decidable (∀ e moved rest, s.pc = .half e moved rest → fd < s.el.events.length) :=
      match h : s.pc with
      | .half e moved rest =>
        decidable_of_iff (fd < s.el.events.length) ⟨fun hk _ _ _ _ => hk, fun hk => hk e moved rest rfl⟩
      | .idle | .batch _ | .thrown => isTrue fun _ _ _ hpc => by cases hpc
    inferInstanceAs (Decidable (data = NULL ∧ fn.isSome = true ∧ s.el.epoll fd = none ∧ _))
  | .del fd mask =>
    decidable_of_iff ((has mask Interest.read.bit = true → s.registry fd .read = none) ∧
        (has mask Interest.write.bit = true → s.registry fd .write = none))
      ⟨fun hk i => by cases i; exacts [hk.1, hk.2], fun hk => ⟨hk .read, hk .write⟩⟩
  | .poll ready => inferInstanceAs (Decidable (∀ r ∈ ready, _ → _))
  | .next => isTrue trivial

/-! ## The invariant -/

/-- The stored callback of an interest. -/
def FileEvent.fn (event : FileEvent) : Interest → Option Fn
  | .read => event.readfn
  | .write => event.writefn

/-- The events whose callbacks are still to be called. -/
def Pc.pending : Pc → List EpollEvent
  | batch rest => rest
  | half e _ rest => e :: rest
  | _ => []

/-- The interests that `processEvents` will call for an event are registered. -/
def Wanted (r : Registry) (e : EpollEvent) : Prop :=
  ∀ i : Interest, has (readyMask e.events) i.bit = true → (r e.data_fd i).isSome = true

structure Served (s : Loop) : Prop where
  masks : ∀ event ∈ s.el.events, event.mask = EL_NONE
  data : ∀ event ∈ s.el.events, event.client_data = NULL
  stored : ∀ fd i fn d, s.registry fd i = some (fn, d) →
    d = NULL ∧ fn.isSome = true ∧ ∃ event, s.el.events[fd]? = some event ∧ event.fn i = fn
  kernel : ∀ fd ee, s.el.epoll fd = some ee → ee.data_fd = fd ∧
    (has ee.events EPOLLIN = true → (s.registry fd .read).isSome = true) ∧
    (has ee.events EPOLLOUT = true → (s.registry fd .write).isSome = true)
  known : ∀ fd i, (s.registry fd i).isSome = true → s.el.epoll fd ≠ none
  pending : ∀ e ∈ s.pc.pending, Wanted s.registry e
  held : ∀ e moved rest, s.pc = .half e moved rest → moved = false
  live : ∀ c ∈ s.calls, c.Live

theorem dispatched_of_served (h : Served s) : Dispatched s :=
  ⟨h.live, fun e moved rest hpc _ => h.held e moved rest hpc⟩

/-! ## A registration -/

section Add

variable {fd : Nat} {mask : Bits} {data : Ptr} {fn : Option Fn}

theorem FileEvent.set_fn_of_has {event : FileEvent} {i : Interest} (h : has mask i.bit = true) :
    (event.set mask fn).fn i = fn := by
  cases i <;> exact if_pos h

theorem resize_getElem {events events' : List FileEvent} {n i : Nat} {e : FileEvent} (h : resize events n = some events')
    (hn : events.length < events'.length) (hi : events[i]? = some e) : events'[i]? = some e := by
  obtain ⟨hlt, -⟩ := List.getElem?_eq_some_iff.mp hi
  unfold resize at h
  split at h
  · simp at h
  · cases h
    rw [List.length_append, List.length_take, List.length_replicate] at hn
    rw [List.getElem?_append_left (by rw [List.length_take]; omega), List.getElem?_take_of_lt (by omega)]
    exact hi

/-- `grow` keeps an entry where it is, when the descriptor is in the table it makes. -/
theorem grow_getElem {el : EventLoop} {events : List FileEvent} {event : FileEvent} {i : Nat} {e : FileEvent}
    (h : el.grow fd = some events) (hfd : events[fd]? = some event) (hi : el.events[i]? = some e) :
    events[i]? = some e := by
  obtain ⟨hlt, -⟩ := List.getElem?_eq_some_iff.mp hfd
  by_cases hsize : fd ≥ el.events.length
  · simp only [EventLoop.grow, if_pos hsize] at h
    exact resize_getElem h (Nat.lt_of_le_of_lt hsize hlt) hi
  · simp only [EventLoop.grow, if_neg hsize, Option.some.injEq] at h
    rw [← h]
    exact hi

/-- A registration of a new descriptor is accepted; the table, the kernel and the registry after it. -/
theorem add_of_new (h : Served s) (hnew : s.el.epoll fd = none) (hs : s.step (.add fd mask data fn) = some s') :
    ∃ events event, s.el.grow fd = some events ∧ events[fd]? = some event ∧
      s'.el.events = events.set fd (event.set mask fn) ∧
      s'.el.epoll = Function.update s.el.epoll fd (some ⟨interestBits mask, fd⟩) ∧
      s'.registry = s.registry.add fd mask fn data ∧ s'.calls = s.calls ∧
      s'.pc = if s'.el.events.length = s.el.events.length then s.pc else s.pc.move := by
  obtain ⟨⟨el, ret⟩, hadd, rfl⟩ := Option.map_eq_some_iff.mp hs
  obtain ⟨events, event, hg, he, hev, hret⟩ := addFileEvent_cases hadd
  have hmask : event.mask = EL_NONE := by
    rcases grow_entry hg he with hold | hfresh
    · exact h.masks event (List.mem_of_getElem? hold)
    · rw [hfresh]
      rfl
  have hctl : epoll_ctl s.el.epoll .add fd ⟨interestBits mask, fd⟩ false =
      some (Function.update s.el.epoll fd (some ⟨interestBits mask, fd⟩)) := by
    simp [epoll_ctl, hnew]
  rw [if_pos hmask, hctl] at hret
  rcases hret with ⟨-, -, hn⟩ | ⟨hok, hk⟩
  · simp at hn
  · refine ⟨events, event, hg, he, hev, (Option.some.inj hk).symm, ?_, rfl, rfl⟩
    show (if ret = EL_OK then _ else _) = _
    rw [if_pos hok]

theorem registry_add_isSome {r : Registry} {fd' : Nat} {i : Interest} (h : (r fd' i).isSome = true) :
    (r.add fd mask fn data fd' i).isSome = true := by
  unfold Registry.add
  split_ifs
  · rfl
  · exact h

/-- The program counter moves with the table only, and then no reference is held. -/
theorem add_pc {events : List FileEvent} (hroom : ∀ e moved rest, s.pc = .half e moved rest → fd < s.el.events.length)
    (hg : s.el.grow fd = some events) (hlen : s'.el.events.length = events.length)
    (hpc : s'.pc = if s'.el.events.length = s.el.events.length then s.pc else s.pc.move) : s'.pc = s.pc := by
  rw [hpc]
  split_ifs with hsame
  · rfl
  · cases hp : s.pc with
    | half e moved rest =>
      have hin := hroom e moved rest hp
      have hstay : s.el.grow fd = some s.el.events := by
        unfold EventLoop.grow
        rw [if_neg (by omega)]
      rw [hstay] at hg
      rw [← Option.some.inj hg] at hlen
      exact absurd hlen hsame
    | _ => rfl

/-- The new callbacks are in the table, and the old ones of other descriptors are still there. -/
theorem stored_add {events : List FileEvent} {event : FileEvent} (h : Served s) (hdata : data = NULL)
    (hfn : fn.isSome = true) (hnew : s.el.epoll fd = none) (hg : s.el.grow fd = some events)
    (he : events[fd]? = some event) {fd' : Nat} {i : Interest} {fn' : Option Fn} {d : Ptr}
    (hr : s.registry.add fd mask fn data fd' i = some (fn', d)) :
    d = NULL ∧ fn'.isSome = true ∧ ∃ e, (events.set fd (event.set mask fn))[fd']? = some e ∧ e.fn i = fn' := by
  have hlt : fd < events.length := (List.getElem?_eq_some_iff.mp he).1
  by_cases hhit : fd' = fd ∧ has mask i.bit = true
  · obtain ⟨rfl, hbit⟩ := hhit
    simp only [Registry.add, true_and, if_pos hbit, Option.some.injEq, Prod.mk.injEq] at hr
    obtain ⟨rfl, rfl⟩ := hr
    exact ⟨hdata, hfn, event.set mask fn, List.getElem?_set_self hlt, FileEvent.set_fn_of_has hbit⟩
  · simp only [Registry.add, if_neg hhit] at hr
    obtain ⟨h1, h2, e, h3, h4⟩ := h.stored fd' i fn' d hr
    have hne : fd ≠ fd' := by
      rintro rfl
      exact h.known fd i (by rw [hr]; rfl) hnew
    refine ⟨h1, h2, e, ?_, h4⟩
    rw [List.getElem?_set_ne hne]
    exact grow_getElem hg he h3

/-- The kernel reports the new descriptor for what it is registered for. -/
theorem kernel_add (h : Served s) {fd' : Nat} {ee : EpollEvent}
    (hk : Function.update s.el.epoll fd (some ⟨interestBits mask, fd⟩) fd' = some ee) :
    ee.data_fd = fd' ∧
      (has ee.events EPOLLIN = true → (s.registry.add fd mask fn data fd' .read).isSome = true) ∧
      (has ee.events EPOLLOUT = true → (s.registry.add fd mask fn data fd' .write).isSome = true) := by
  by_cases hfd : fd' = fd
  · subst hfd
    rw [Function.update_self] at hk
    obtain rfl := Option.some.inj hk
    refine ⟨rfl, fun hb => ?_, fun hb => ?_⟩
    · rw [has_interestBits_in] at hb
      simp [Registry.add, Interest.bit, hb]
    · rw [has_interestBits_out] at hb
      simp [Registry.add, Interest.bit, hb]
  · rw [Function.update_of_ne hfd] at hk
    obtain ⟨h1, h2, h3⟩ := h.kernel fd' ee hk
    exact ⟨h1, fun hb => registry_add_isSome (h2 hb), fun hb => registry_add_isSome (h3 hb)⟩

theorem served_add (h : Served s) (hok : Faithful s (.add fd mask data fn))
    (hs : s.step (.add fd mask data fn) = some s') : Served s' := by
  obtain ⟨hdata, hfn, hnew, hroom⟩ := hok
  obtain ⟨events, event, hg, he, hev, hepoll, hreg, hcalls, hpc⟩ := add_of_new h hnew hs
  have hpc' : s'.pc = s.pc := add_pc hroom hg (by rw [hev, List.length_set]) hpc
  refine ⟨?_, ?_, ?_, ?_, ?_, ?_, ?_, ?_⟩
  · obtain ⟨⟨el, ret⟩, hadd, rfl⟩ := Option.map_eq_some_iff.mp hs
    exact addFileEvent_unmasked h.masks hadd
  · have hall : ∀ e ∈ events, e.client_data = NULL := by
      intro e hin
      obtain ⟨i, hi⟩ := List.mem_iff_getElem?.mp hin
      rcases grow_entry hg hi with hold | rfl
      · exact h.data e (List.mem_of_getElem? hold)
      · rfl
    intro e hin
    rw [hev] at hin
    rcases List.mem_or_eq_of_mem_set hin with hin | rfl
    · exact hall e hin
    · exact hall event (List.mem_of_getElem? he)
  · intro fd' i fn' d hr
    rw [hreg] at hr
    rw [hev]
    exact stored_add h hdata hfn hnew hg he hr
  · intro fd' ee hk
    rw [hepoll] at hk
    rw [hreg]
    exact kernel_add h hk
  · intro fd' i hr
    rw [hepoll]
    by_cases hfd : fd' = fd
    · subst hfd
      rw [Function.update_self]
      exact Option.some_ne_none _
    · rw [Function.update_of_ne hfd]
      refine h.known fd' i ?_
      rwa [hreg, Registry.add, if_neg (fun hh => hfd hh.1)] at hr
  · intro e hin i hb
    rw [hpc'] at hin
    rw [hreg]
    exact registry_add_isSome (h.pending e hin i hb)
  · rw [hpc']
    exact h.held
  · rw [hcalls]
    exact h.live

end Add

/-! ## The other actions -/

theorem served_del {fd : Nat} {mask : Bits} (h : Served s) (hok : Faithful s (.del fd mask))
    (hs : s.step (.del fd mask) = some s') : Served s' := by
  obtain ⟨el, hel, rfl⟩ := Option.map_eq_some_iff.mp hs
  obtain rfl := delFileEvent_unmasked h.masks hel
  have hreg : s.registry.del fd mask = s.registry := by
    funext fd' i
    unfold Registry.del
    split_ifs with hhit
    · rw [hhit.1, hok i hhit.2]
    · rfl
  rw [hreg]
  exact ⟨h.masks, h.data, h.stored, h.kernel, h.known, h.pending, h.held, h.live⟩

/-- A reported event calls for registered interests only. -/
theorem wanted_of_reportable {r : Nat × Bits} (h : Served s) (hrep : Reportable s.el.epoll r.1 r.2 = true)
    (hok : has r.2 EPOLLERR = true ∨ has r.2 EPOLLHUP = true → (s.registry r.1 .write).isSome = true) :
    Wanted s.registry (reported s.el.epoll r) := by
  unfold Reportable at hrep
  split at hrep
  · simp at hrep
  · rename_i ee hk
    have hbits := of_decide_eq_true hrep
    obtain ⟨hfd, hin, hout⟩ := h.kernel r.1 ee hk
    have hrfd : (reported s.el.epoll r).data_fd = r.1 := by simp [reported, hk, hfd]
    intro i hb
    rw [hrfd]
    cases i with
    | read =>
      have hb' : has r.2 EPOLLIN = true := by rw [← has_readyMask_readable]; exact hb
      exact hin (has_of_reported hbits (by decide) (by decide) hb')
    | write =>
      have hb' : (has r.2 EPOLLOUT || has r.2 EPOLLERR || has r.2 EPOLLHUP) = true := by
        rw [← has_readyMask_writable]
        exact hb
      simp only [Bool.or_eq_true] at hb'
      rcases hb' with (hb' | hb') | hb'
      · exact hout (has_of_reported hbits (by decide) (by decide) hb')
      · exact hok (.inl hb')
      · exact hok (.inr hb')

theorem served_poll {ready : List (Nat × Bits)} (h : Served s) (hok : Faithful s (.poll ready))
    (hs : s.step (.poll ready) = some s') : Served s' := by
  simp only [Loop.step, Option.ite_none_right_eq_some, Option.some.injEq, List.all_eq_true] at hs
  obtain ⟨⟨-, hrep⟩, rfl⟩ := hs
  refine ⟨h.masks, h.data, h.stored, h.kernel, h.known, fun e hin => ?_, fun e moved rest hpc => ?_, h.live⟩
  · obtain ⟨r, hr, rfl⟩ := List.mem_map.mp hin
    exact wanted_of_reportable (s := s) h (hrep r hr) (hok r hr)
  · simp at hpc

/-- A call through the table of a registered interest is live, and the batch goes on. -/
theorem served_call {fd : Nat} {i : Interest} {event : FileEvent} {next : Pc} (h : Served s)
    (he : s.el.events[fd]? = some event) (hr : (s.registry fd i).isSome = true)
    (hpend : ∀ e ∈ next.pending, Wanted s.registry e) (hheld : ∀ e moved rest, next = .half e moved rest → moved = false) :
    Served (s.call fd i (event.fn i) event.client_data next) := by
  obtain ⟨⟨fn, d⟩, hreg⟩ := Option.isSome_iff_exists.mp hr
  obtain ⟨rfl, hfn, event', he', hf⟩ := h.stored fd i fn d hreg
  obtain rfl : event' = event := Option.some.inj (he'.symm.trans he)
  have hpc : (s.call fd i (event'.fn i) event'.client_data next).pc = next := by
    show (if (event'.fn i).isSome = true then next else .thrown) = next
    rw [hf, if_pos hfn]
  refine ⟨h.masks, h.data, h.stored, h.kernel, h.known, ?_, ?_, ?_⟩
  · rw [hpc]
    exact hpend
  · rw [hpc]
    exact hheld
  · intro c hc
    rcases List.mem_append.mp hc with hc | hc
    · exact h.live c hc
    · obtain rfl := List.mem_singleton.mp hc
      refine ⟨by rw [hf]; exact hfn, ?_⟩
      rw [hreg, hf, h.data event' (List.mem_of_getElem? he)]

theorem served_next (h : Served s) (hs : s.step .next = some s') : Served s' := by
  -- a move of the program counter alone
  have move : ∀ pc : Pc, (∀ e ∈ pc.pending, Wanted s.registry e) →
      (∀ e moved rest, pc = .half e moved rest → moved = false) →
      Served { s with pc := pc } := fun pc hp hh =>
    ⟨h.masks, h.data, h.stored, h.kernel, h.known, hp, hh, h.live⟩
  have hpend := h.pending
  simp only [Loop.step] at hs
  split at hs
  · cases hs
    exact move .idle (fun e he => by cases he) (fun e moved rest hpc => by cases hpc)
  · rename_i e rest hpc
    rw [hpc] at hpend
    have hhalf : ∀ e' moved rest', Pc.half e false rest = .half e' moved rest' → moved = false := by
      intro e' moved rest' heq
      cases heq
      rfl
    obtain ⟨event, he, rfl⟩ := Option.map_eq_some_iff.mp hs
    split_ifs with hb
    · exact served_call (i := .read) h he (hpend e List.mem_cons_self .read hb) hpend hhalf
    · exact move _ hpend hhalf
  · rename_i e moved rest hpc
    rw [hpc] at hpend
    have hrest : ∀ e' ∈ rest, Wanted s.registry e' := fun e' he' => hpend e' (List.mem_cons_of_mem _ he')
    have hbatch : ∀ e' moved rest', Pc.batch rest = .half e' moved rest' → moved = false := by
      intro e' moved rest' heq
      simp at heq
    unfold Loop.writeHalf at hs
    split_ifs at hs with hb hm
    · obtain ⟨event, he, rfl⟩ := Option.map_eq_some_iff.mp hs
      exact served_call (i := .write) h he (hpend e List.mem_cons_self .write hb) hrest hbatch
    · cases hs
      exact move _ hrest hbatch
  · simp at hs
  · simp at hs

theorem served_step (h : Served s) (hok : Faithful s a) (hs : s.step a = some s') : Served s' := by
  cases a with
  | add => exact served_add h hok hs
  | del => exact served_del h hok hs
  | poll => exact served_poll h hok hs
  | next => exact served_next h hs

theorem served_fresh (n : Nat) : Served (.fresh n) where
  masks event he := by rw [List.eq_of_mem_replicate he]; rfl
  data event he := by rw [List.eq_of_mem_replicate he]; rfl
  stored fd i fn d h := by cases h
  kernel fd ee h := by cases h
  known fd i h := by cases h
  pending e he := by cases he
  held e moved rest h := by cases h
  live c hc := by cases hc

/-- **The dispatch reaches live registrations only**, in every run whose steps all meet `Faithful`. -/
theorem dispatched_of_faithful (n : Nat) (acts : List Act) (hok : StepsOk eventLoop Faithful (.fresh n) acts) :
    Always eventLoop Dispatched (.fresh n) acts :=
  always_of_stepsOk (I := Served) (fun _ h => dispatched_of_served h) (fun _ _ _ h ho hs => served_step h ho hs)
    (served_fresh n) hok

/-- A descriptor is registered for both interests and reported ready for both. -/
def bothReady : List Act :=
  [.add 3 (EL_READABLE ||| EL_WRITABLE) NULL (some 7), .poll [(3, EPOLLIN ||| EPOLLOUT)], .next]

theorem bothReady_dispatched : Always eventLoop Dispatched (.fresh 8) (bothReady ++ [.next, .next]) :=
  dispatched_of_faithful 8 _ (by decide)

/-- The read callback deletes the write interest, and the write callback is called all the same. -/
theorem deleted_dispatched : ¬ Always eventLoop Dispatched (.fresh 8) (bothReady ++ [.del 3 EL_WRITABLE, .next]) := by
  intro h
  have hrun : (eventLoop.exec (.fresh 8) (bothReady ++ [.del 3 EL_WRITABLE, .next])).map Loop.calls =
      some [⟨3, .read, some 7, NULL, some (some 7, NULL)⟩, ⟨3, .write, some 7, NULL, none⟩] := by decide
  obtain ⟨s, hs, hv⟩ := Option.map_eq_some_iff.mp hrun
  have hlive := (h.exec hs).live ⟨3, .write, some 7, NULL, none⟩ (by rw [hv]; decide)
  cases hlive.2

end BeanRaft.Event
