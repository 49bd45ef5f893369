import BeanRaft.Event.Registration

/-!
# BeanRaft.Event.Bounds — the indices of the loop and the sizes of its tables

The loop of `EventLoop` with the size of its second vector, `epoll_events`, which no function of the class changes.

* `Use`: an index into one of the two vectors, or the capacity given to `epoll_wait`, with the size of the vector at
  that moment.  `Tables.uses`: what a call uses; `used` (history) keeps it.
* `InBounds`: every use so far was in range.  `inBounds_iff`: this is so exactly as long as `addFileEvent` is called
  below twice the size of the table, `delFileEvent` not at its size, and `processEvents` with no more events than
  `epoll_events` has entries.  The constructor leaves both vectors empty.
-/

namespace BeanRaft.Event

open Lts CInt

/-- What a call does with a vector of the given size. -/
inductive Use
  | events (index size : Nat)
  | epoll_events (index size : Nat)
  /-- `epoll_wait` may write this many entries. -/
  | capacity (maxevents size : Nat)
  deriving DecidableEq, Repr

def Use.Ok : Use → Prop
  | events index size => index < size
  | epoll_events index size => index < size
  | capacity maxevents size => maxevents ≤ size

instance : ∀ u : Use, Decidable u.Ok
  | .events index size => inferInstanceAs (Decidable (index < size))
  | .epoll_events index size => inferInstanceAs (Decidable (index < size))
  | .capacity maxevents size => inferInstanceAs (Decidable (maxevents ≤ size))

structure Tables where
  loop : Loop
  /-- `epoll_events.size()` -/
  epoll_events : Nat
  used : List Use
  /-- An index was out of range. -/
  undefined : Bool

inductive TableAct
  | init
  | act (a : Act)
  deriving DecidableEq, Repr

namespace Tables

variable (s : Tables)

/-- `events.size()` -/
def size : Nat := s.loop.el.events.length

/-- What a call uses, in order.  `epoll_wait` fills as many entries as there are ready events; the `assert` of line 106
ends the program before an index out of range. -/
def uses : Act → List Use
  | .add fd _ _ _ =>
    match s.loop.el.grow fd with
    | none => []
    | some events => [.events fd events.length]
  | .del fd _ => if fd > s.size then [] else [.events fd s.size]
  | .poll ready => .capacity s.size s.epoll_events :: (List.range ready.length).map (.epoll_events · s.epoll_events)
  | .next =>
    match s.loop.pc with
    | .batch (e :: _) => if e.data_fd < s.size then [.events e.data_fd s.size] else []
    | _ => []

/-- A descriptor is an `int`, and `epoll_wait` reports no more events than it was given room for. -/
def Possible : Act → Prop
  | .add fd _ _ _ => (fd : Int) ≤ INT_MAX
  | .del fd _ => (fd : Int) ≤ INT_MAX
  | .poll ready => ready.length ≤ s.size
  | .next => True

instance : ∀ a, Decidable (s.Possible a)
  | .add fd _ _ _ => inferInstanceAs (Decidable ((fd : Int) ≤ INT_MAX))
  | .del fd _ => inferInstanceAs (Decidable ((fd : Int) ≤ INT_MAX))
  | .poll ready => inferInstanceAs (Decidable (ready.length ≤ s.size))
  | .next => isTrue trivial

/-- The loop after a call whose indices are in range; a `resize` that throws leaves it as it is. -/
def run : Act → Option Loop
  | .add fd mask data fn =>
    match s.loop.el.grow fd with
    | none => some s.loop
    | some _ => s.loop.step (.add fd mask data fn)
  | a => s.loop.step a

/-- The transition function; `init` only creates the epoll descriptor. -/
def step : TableAct → Option Tables
  | .init => if s.undefined then none else some s
  | .act a =>
    if s.undefined = false ∧ s.Possible a then
      if ∀ u ∈ s.uses a, u.Ok then (s.run a).map fun loop => { s with loop := loop, used := s.used ++ s.uses a }
      else some { s with used := s.used ++ s.uses a, undefined := true }
    else none

/-- A loop with `n` unused entries in its table, and `m` in `epoll_events`. -/
def fresh (n m : Nat) : Tables := ⟨.fresh n, m, [], false⟩

end Tables

/-- The loop and its tables as a transition system. -/
def tables : System Tables TableAct where
  init s := ∃ n m, s = .fresh n m
  step := Tables.step

/-! ## The property and its condition -/

def InBounds (s : Tables) : Prop := ∀ u ∈ s.used, u.Ok

/-- The growth of the table reaches the descriptor, the check of `delFileEvent` keeps it in the table, and there are
entries for all the events that `epoll_wait` may report. -/
def InRange (s : Tables) : TableAct → Prop
  | .act (.add fd _ _ _) => fd < 2 * s.size
  | .act (.del fd _) => fd ≠ s.size
  | .act (.poll _) => s.size ≤ s.epoll_events
  | .act .next => True
  | .init => True

instance (s : Tables) : ∀ a, Decidable (InRange s a)
  | .act (.add fd _ _ _) => inferInstanceAs (Decidable (fd < 2 * s.size))
  | .act (.del fd _) => inferInstanceAs (Decidable (fd ≠ s.size))
  | .act (.poll _) => inferInstanceAs (Decidable (s.size ≤ s.epoll_events))
  | .act .next | .init => isTrue trivial

/-! ## The size after the growth -/

section Growth

variable {el : EventLoop} {fd : Nat} {events : List FileEvent} {s s' : Tables}

theorem resize_length {n : Nat} (hn : events.length ≤ n) {events' : List FileEvent}
    (h : resize events n = some events') : events'.length = n := by
  unfold resize at h
  split_ifs at h
  rw [← Option.some.inj h, List.length_append, List.length_take, List.length_replicate]
  omega

/-- From twice the size on, the table is grown to the descriptor itself, which is one too few. -/
theorem grow_beyond (hfd : (fd : Int) ≤ INT_MAX) (hbig : 2 * el.events.length ≤ fd) :
    ∃ events, el.grow fd = some events ∧ events.length = fd := by
  unfold INT_MAX at hfd
  have hnew : (if fd > el.events.length * 2 then (fd : Int) else (el.events.length : Int) * 2) = fd := by
    split_ifs <;> omega
  have hint : uint64 (int32 (fd : Int)) = fd := by
    rw [int32_of_range (by omega) (by omega), uint64_of_range (by omega) (by omega)]
    exact Int.toNat_natCast fd
  have hmax : ¬ fd > MAX_EVENTS := by
    unfold MAX_EVENTS
    omega
  have hgrow : el.grow fd = some (el.events.take fd ++ List.replicate (fd - el.events.length) .new) := by
    unfold EventLoop.grow
    rw [if_pos (by omega), hnew]
    dsimp only
    rw [hint]
    unfold resize
    rw [if_neg hmax]
  refine ⟨_, hgrow, ?_⟩
  rw [List.length_append, List.length_take, List.length_replicate]
  omega

/-- Below twice the size, the descriptor is in the table, or the `resize` throws. -/
theorem grow_below (hfd : (fd : Int) ≤ INT_MAX) (hsmall : fd < 2 * el.events.length) (h : el.grow fd = some events) :
    fd < events.length := by
  unfold INT_MAX at hfd
  by_cases hin : fd < el.events.length
  · unfold EventLoop.grow at h
    rw [if_neg (by omega)] at h
    rw [← Option.some.inj h]
    exact hin
  · unfold EventLoop.grow at h
    rw [if_pos (by omega), if_neg (by omega)] at h
    dsimp only at h
    by_cases hint : 2 * el.events.length < 2 ^ 31
    · have hsize : uint64 (int32 ((el.events.length : Int) * 2)) = el.events.length * 2 := by
        rw [int32_of_range (by omega) (by omega), uint64_of_range (by omega) (by omega)]
        omega
      rw [hsize] at h
      rw [resize_length (by omega) h]
      omega
    · -- twice the size is negative as an `int`, and so beyond `max_size()`
      have hlarge : uint64 (int32 ((el.events.length : Int) * 2)) > MAX_EVENTS := by
        have hneg : int32 ((el.events.length : Int) * 2) = el.events.length * 2 - 2 ^ 32 := by
          simp only [int32, Int.bmod]
          split <;> omega
        rw [hneg]
        unfold uint64 MAX_EVENTS
        omega
      unfold resize at h
      rw [if_pos hlarge] at h
      simp at h

end Growth

/-! ## The steps -/

section Steps

variable {s s' : Tables} {a : Act}

/-- A call of the loop that can be made: its uses are recorded. -/
theorem act_used (hs : s.step (.act a) = some s') : s.Possible a ∧ s'.used = s.used ++ s.uses a := by
  simp only [Tables.step] at hs
  split_ifs at hs with hp hok
  · obtain ⟨loop, -, rfl⟩ := Option.map_eq_some_iff.mp hs
    exact ⟨hp.2, rfl⟩
  · rw [← Option.some.inj hs]
    exact ⟨hp.2, rfl⟩

/-- Under the condition, all uses of a call are in range. -/
theorem uses_ok (hp : s.Possible a) (hok : InRange s (.act a)) : ∀ u ∈ s.uses a, u.Ok := by
  intro u hu
  cases a with
  | add fd mask data fn =>
    simp only [Tables.uses] at hu
    split at hu
    · exact absurd hu List.not_mem_nil
    · rename_i events hg
      rw [List.mem_singleton.mp hu]
      exact grow_below hp hok hg
  | del fd mask =>
    simp only [Tables.uses] at hu
    split_ifs at hu with hgt
    · exact absurd hu List.not_mem_nil
    · rw [List.mem_singleton.mp hu]
      have hne : fd ≠ s.size := hok
      show fd < s.size
      omega
  | poll ready =>
    have hlen : ready.length ≤ s.size := hp
    have hroom : s.size ≤ s.epoll_events := hok
    rcases List.mem_cons.mp hu with rfl | hu
    · exact hroom
    · obtain ⟨i, hi, rfl⟩ := List.mem_map.mp hu
      have hi' := List.mem_range.mp hi
      show i < s.epoll_events
      omega
  | next =>
    simp only [Tables.uses] at hu
    split at hu
    · split_ifs at hu with hlt
      · rw [List.mem_singleton.mp hu]
        exact hlt
      · exact absurd hu List.not_mem_nil
    · exact absurd hu List.not_mem_nil

/-- Without it, a call has a use out of range. -/
theorem uses_bad (hp : s.Possible a) (hno : ¬ InRange s (.act a)) : ∃ u ∈ s.uses a, ¬ u.Ok := by
  cases a with
  | add fd mask data fn =>
    have hbig : 2 * s.size ≤ fd := Nat.le_of_not_lt hno
    obtain ⟨events, hg, hlen⟩ := grow_beyond hp hbig
    refine ⟨.events fd events.length, ?_, ?_⟩
    · simp only [Tables.uses, hg]
      exact List.mem_singleton.mpr rfl
    · show ¬ fd < events.length
      omega
  | del fd mask =>
    have heq : fd = s.size := Classical.not_not.mp hno
    refine ⟨.events fd s.size, ?_, ?_⟩
    · simp only [Tables.uses]
      rw [if_neg (by omega)]
      exact List.mem_singleton.mpr rfl
    · show ¬ fd < s.size
      omega
  | poll ready => exact ⟨.capacity s.size s.epoll_events, List.mem_cons_self, hno⟩
  | next => exact absurd trivial hno

end Steps

theorem inBounds_step {s s' : Tables} {a : TableAct} (h : InBounds s) (hok : InRange s a) (hs : s.step a = some s') :
    InBounds s' := by
  cases a with
  | init =>
    simp only [Tables.step] at hs
    split_ifs at hs
    rw [← Option.some.inj hs]
    exact h
  | act a =>
    obtain ⟨hp, hused⟩ := act_used hs
    intro u hu
    rw [hused] at hu
    rcases List.mem_append.mp hu with hu | hu
    · exact h u hu
    · exact uses_ok hp hok u hu

theorem not_inBounds_step {s s' : Tables} {a : TableAct} (hno : ¬ InRange s a) (hs : s.step a = some s') :
    ¬ InBounds s' := by
  cases a with
  | init => exact absurd trivial hno
  | act a =>
    obtain ⟨hp, hused⟩ := act_used hs
    obtain ⟨u, hu, hbad⟩ := uses_bad hp hno
    intro h
    exact hbad (h u (by rw [hused]; exact List.mem_append_right _ hu))

/-- **When every index of the loop is in range**: in every state of a run, if and only if every call meets `InRange`. -/
theorem inBounds_iff (n m : Nat) (acts : List TableAct) :
    Always tables InBounds (.fresh n m) acts ↔ StepsOk tables InRange (.fresh n m) acts :=
  always_iff_stepsOk (I := InBounds) (fun _ h => h) (fun _ _ _ h hok hs => inBounds_step h hok hs)
    (fun _ _ _ _ hno hs => not_inBounds_step hno hs) (fun _ hu => absurd hu List.not_mem_nil) acts

/-- The first descriptor that is added to an empty table is beyond it. -/
theorem firstAdd_outOfBounds : ¬ Always tables InBounds (.fresh 0 0) [.init, .act (.add 5 EL_READABLE NULL (some 7))] := by
  rintro ⟨-, h⟩
  obtain ⟨-, h⟩ := h _ rfl
  have hused : ((Tables.fresh 0 0).step (.act (.add 5 EL_READABLE NULL (some 7)))).map Tables.used =
      some [.events 5 5] := by decide
  obtain ⟨s, hs, hv⟩ := Option.map_eq_some_iff.mp hused
  have hok := h s hs (.events 5 5) (by rw [hv]; exact List.mem_singleton.mpr rfl)
  exact absurd hok (by decide)

end BeanRaft.Event
