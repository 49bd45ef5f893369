import Mathlib.Data.Option.Basic
import Mathlib.Logic.Function.Basic
import BeanRaft.Lib.Lts
import BeanRaft.Lib.CInt

/-!
# BeanRaft.Event.EventLoop — the table of file events and its dispatch

The file-event half of the class `EventLoop` (`eventloop.hpp`, `eventloop.cpp`) over a model of epoll.

* `addFileEvent`, `delFileEvent`: translated with the table they index; `none` is an access outside the table, or
  the `length_error` of a `resize`.
* `Loop`: the loop, the place of `processEvents` in its batch, and `registry`, the interests its users have
  registered.  No function of the class reads the registry or the list of the calls.
* A callback is a name; what it does to the loop while it runs are the `add` and `del` actions between two `next`.
-/

namespace BeanRaft.Event

open Lts CInt

/-- An `int` mask, or the events of an `epoll_event`. -/
abbrev Bits := BitVec 32

/-- `m & b` as a condition. -/
def has (m b : Bits) : Bool := m &&& b != 0

def EL_OK : Int := 1
def EL_ERR : Int := 0

def EL_NONE : Bits := 0
def EL_READABLE : Bits := 1
def EL_WRITABLE : Bits := 2

/-- The value the header gives to `EPOLLIN`. -/
def EPOLLIN : Bits := 1 <<< 1
def EPOLLOUT : Bits := 1 <<< 2
def EPOLLERR : Bits := 0x8
def EPOLLHUP : Bits := 0x10

/-- A callback, by its name; an empty `std::function` is `none`. -/
abbrev Fn := Nat

/-- A `void *`. -/
abbrev Ptr := Nat

def NULL : Ptr := 0

/-! ## The kernel -/

namespace Linux

/-- The values of the kernel. -/
def EPOLLIN : Bits := 0x1
def EPOLLOUT : Bits := 0x4

end Linux

/-- `struct epoll_event` with the descriptor in its data. -/
structure EpollEvent where
  events : Bits
  data_fd : Nat
  deriving DecidableEq, Repr

abbrev Epoll := Nat → Option EpollEvent

inductive CtlOp
  | add
  | mod
  | del
  deriving DecidableEq, Repr

/-- `epoll_ctl`; `none` is the result -1.  `fails` is a failure for another reason than the three below. -/
def epoll_ctl (k : Epoll) (op : CtlOp) (fd : Nat) (ee : EpollEvent) (fails : Bool) : Option Epoll :=
  if fails then none
  else
    match op, k fd with
    | .add, none => some (Function.update k fd (some ee))
    | .add, some _ => none
    | .mod, some _ => some (Function.update k fd (some ee))
    | .mod, none => none
    | .del, some _ => some (Function.update k fd none)
    | .del, none => none

/-! ## The loop -/

structure FileEvent where
  mask : Bits
  readfn : Option Fn
  writefn : Option Fn
  fd : Int
  client_data : Ptr
  deriving DecidableEq, Repr

/-- The constructor. -/
def FileEvent.new : FileEvent := ⟨EL_NONE, none, none, -1, NULL⟩

structure EventLoop where
  events : List FileEvent
  epoll : Epoll

/-- `vector<fileEvent>::max_size()`: `PTRDIFF_MAX / sizeof(fileEvent)`. -/
def MAX_EVENTS : Nat := (2 ^ 63 - 1) / 88

/-- `events.resize(n)`, which default-constructs the new elements. -/
def resize (events : List FileEvent) (n : Nat) : Option (List FileEvent) :=
  if n > MAX_EVENTS then none
  else some (events.take n ++ List.replicate (n - events.length) .new)

/-- The bits for the kernel of a mask of interests. -/
def interestBits (mask : Bits) : Bits :=
  (if has mask EL_READABLE then EPOLLIN else 0) ||| (if has mask EL_WRITABLE then EPOLLOUT else 0)

/-- The entry after the two branches of `addFileEvent`. -/
def FileEvent.set (event : FileEvent) (mask : Bits) (fn : Option Fn) : FileEvent :=
  { event with
    readfn := if has mask EL_READABLE then fn else event.readfn
    writefn := if has mask EL_WRITABLE then fn else event.writefn }

namespace EventLoop

variable (el : EventLoop)

/-- Lines 40-43; `newsize` is an `int`. -/
def grow (fd : Nat) : Option (List FileEvent) :=
  if fd ≥ el.events.length then
    let newsize := int32 (if fd > el.events.length * 2 then fd else el.events.length * 2)
    resize el.events (uint64 newsize)
  else some el.events

/-- `addFileEvent` (line 38): the loop after the call and the value returned.  The data pointer and the mask of the
entry are not stored. -/
def addFileEvent (fd : Nat) (mask : Bits) (_data : Ptr) (fn : Option Fn) (fails : Bool) : Option (EventLoop × Int) :=
  (el.grow fd).bind fun events => events[fd]?.map fun event =>
    let op := if event.mask = EL_NONE then CtlOp.add else .mod
    let events := events.set fd (event.set mask fn)
    match epoll_ctl el.epoll op fd ⟨interestBits mask, fd⟩ fails with
    | none => (⟨events, el.epoll⟩, EL_ERR)
    | some epoll => (⟨events, epoll⟩, EL_OK)

/-- `delFileEvent` (line 63).  The data of its `epoll_event` stays 0, and the new mask is not stored. -/
def delFileEvent (fd : Nat) (mask : Bits) (fails : Bool) : Option EventLoop :=
  if fd > el.events.length then some el
  else el.events[fd]?.map fun event =>
    if event.mask = EL_NONE then el
    else
      let newmask := event.mask &&& ~~~mask
      let op := if newmask ≠ EL_NONE then CtlOp.mod else .del
      { el with epoll := (epoll_ctl el.epoll op fd ⟨interestBits newmask, 0⟩ fails).getD el.epoll }

end EventLoop

/-- The mask of `processEvents` for the events of the kernel (lines 101-104). -/
def readyMask (events : Bits) : Bits :=
  (if has events EPOLLIN then EL_READABLE else 0) ||| (if has events EPOLLOUT then EL_WRITABLE else 0) |||
    (if has events EPOLLERR then EL_WRITABLE else 0) ||| (if has events EPOLLHUP then EL_WRITABLE else 0)

/-! ## The loop and its users -/

inductive Interest
  | read
  | write
  deriving DecidableEq, Repr

def Interest.bit : Interest → Bits
  | read => EL_READABLE
  | write => EL_WRITABLE

/-- The callback and the data pointer of every interest that was added and not yet deleted. -/
abbrev Registry := Nat → Interest → Option (Option Fn × Ptr)

def Registry.add (r : Registry) (fd : Nat) (mask : Bits) (fn : Option Fn) (data : Ptr) : Registry := fun fd' i =>
  if fd' = fd ∧ has mask i.bit = true then some (fn, data) else r fd' i

def Registry.del (r : Registry) (fd : Nat) (mask : Bits) : Registry := fun fd' i =>
  if fd' = fd ∧ has mask i.bit = true then none else r fd' i

/-- The registered interests of a descriptor as a mask. -/
def Registry.mask (r : Registry) (fd : Nat) : Bits :=
  (if (r fd .read).isSome then EL_READABLE else 0) ||| (if (r fd .write).isSome then EL_WRITABLE else 0)

/-- An invocation of a callback, with what was registered for the interest at that moment. -/
structure Call where
  fd : Nat
  interest : Interest
  fn : Option Fn
  data : Ptr
  registered : Option (Option Fn × Ptr)
  deriving DecidableEq, Repr

/-- Where `processEvents` is. -/
inductive Pc
  | idle
  /-- At the head of the loop over the ready events (line 98), or in the callback before it. -/
  | batch (rest : List EpollEvent)
  /-- Between the two halves of an event (line 113), or in the read callback; `moved` when the table was moved
  since the reference to the entry was taken. -/
  | half (e : EpollEvent) (moved : Bool) (rest : List EpollEvent)
  /-- An empty function was called. -/
  | thrown
  deriving DecidableEq, Repr

def Pc.move : Pc → Pc
  | half e _ rest => half e true rest
  | pc => pc

structure Loop where
  el : EventLoop
  registry : Registry
  /-- Some `addFileEvent` did not return `EL_OK`. -/
  refused : Bool
  pc : Pc
  calls : List Call

inductive Act
  | add (fd : Nat) (mask : Bits) (data : Ptr) (fn : Option Fn)
  | del (fd : Nat) (mask : Bits)
  /-- `epoll_wait` returns these descriptors with these events. -/
  | poll (ready : List (Nat × Bits))
  | next
  deriving DecidableEq, Repr

/-- The kernel may report `bits` for `fd`: the descriptor is registered, and besides its events there are only
errors and hang-ups. -/
def Reportable (k : Epoll) (fd : Nat) (bits : Bits) : Bool :=
  match k fd with
  | none => false
  | some ee => bits &&& (ee.events ||| EPOLLERR ||| EPOLLHUP) = bits

/-- The entry of `epoll_events` for a reported descriptor. -/
def reported (k : Epoll) (r : Nat × Bits) : EpollEvent := ⟨r.2, ((k r.1).map EpollEvent.data_fd).getD 0⟩

namespace Loop

variable (s : Loop)

/-- Calls a function with a data pointer; an empty one throws. -/
def call (fd : Nat) (i : Interest) (fn : Option Fn) (data : Ptr) (next : Pc) : Loop :=
  { s with
    calls := s.calls ++ [⟨fd, i, fn, data, s.registry fd i⟩]
    pc := if fn.isSome then next else .thrown }

def add (fd : Nat) (mask : Bits) (data : Ptr) (fn : Option Fn) (r : EventLoop × Int) : Loop :=
  { s with
    el := r.1
    registry := if r.2 = EL_OK then s.registry.add fd mask fn data else s.registry
    refused := s.refused || r.2 != EL_OK
    pc := if r.1.events.length = s.el.events.length then s.pc else s.pc.move }

/-- The first half of the body of the loop (lines 106-112); the `assert` guards the index. -/
def readHalf (e : EpollEvent) (rest : List EpollEvent) : Option Loop :=
  s.el.events[e.data_fd]?.map fun event =>
    if has (readyMask e.events) EL_READABLE then
      s.call e.data_fd .read event.readfn event.client_data (.half e false rest)
    else { s with pc := .half e false rest }

/-- The second half (lines 113-115), through the reference of the first one. -/
def writeHalf (e : EpollEvent) (moved : Bool) (rest : List EpollEvent) : Option Loop :=
  if has (readyMask e.events) EL_WRITABLE then
    if moved then none
    else s.el.events[e.data_fd]?.map fun event =>
      s.call e.data_fd .write event.writefn event.client_data (.batch rest)
  else some { s with pc := .batch rest }

/-- The transition function; `none` for what cannot happen and for undefined behaviour. -/
def step : Act → Option Loop
  | .add fd mask data fn => (s.el.addFileEvent fd mask data fn false).map (s.add fd mask data fn)
  | .del fd mask => (s.el.delFileEvent fd mask false).map fun el => { s with el := el, registry := s.registry.del fd mask }
  | .poll ready =>
    if s.pc = .idle ∧ (ready.all fun r => Reportable s.el.epoll r.1 r.2) = true then
      some { s with pc := .batch (ready.map (reported s.el.epoll)) }
    else none
  | .next =>
    match s.pc with
    | .batch [] => some { s with pc := .idle }
    | .batch (e :: rest) => s.readHalf e rest
    | .half e moved rest => s.writeHalf e moved rest
    | .idle | .thrown => none

/-- A loop with a table of `n` unused entries. -/
def fresh (n : Nat) : Loop := ⟨⟨List.replicate n .new, fun _ => none⟩, fun _ _ => none, false, .idle, []⟩

end Loop

/-- The loop as a transition system. -/
def eventLoop : System Loop Act where
  init s := ∃ n, s = .fresh n
  step := Loop.step

end BeanRaft.Event
