import BeanRaft.Slice.Values
import BeanRaft.Raft.Connection

/-!
# BeanRaft.Raft.Incoming — the incoming bytes of a Connection

`Connection::readFromSocket` of `connection.cpp`, over an environment that decides every `read(2)` (`ReadResult`).  The
members `data` and `errmsg` are the objects 0 and 1 of the memory of the Slices.  The function is to return a `bool`: after
a `read` of some bytes it ends without a `return`, and at the end of the stream it calls an assignment of `Slice` that does.
Both are undefined; the parameter `returns` is for code that comes back to the caller all the same.

* `received`, `negative` and `failed` are history: all bytes that were read, whether a negative length was passed to
  `append`, and whether the last `read` failed for a reason that is not transient.
* `Received`: `data` holds the bytes received.  `received_iff`: this is so exactly when each `read` fails for a transient
  reason; where the calls come back, when no `read` fails for another one and the string of `data` can grow.
-/

namespace BeanRaft.Raft

open Lts CInt Slice

/-- A result of `read(2)`: some bytes, the end of the stream, a failure with `EAGAIN`, `EWOULDBLOCK` or `EINTR`, or one
with another errno. -/
inductive ReadResult
  | bytes (bs : Bytes)
  | eof
  | transient
  | fatal
  deriving DecidableEq, Repr

namespace ReadResult

def nread : ReadResult → Int
  | bytes bs => bs.length
  | eof => 0
  | transient => -1
  | fatal => -1

/-- The array `buf` after the call; what was not read is not initialised. -/
def buf : ReadResult → List Byte
  | bytes bs => bs.map some ++ List.replicate (4096 - bs.length) none
  | _ => List.replicate 4096 none

def received : ReadResult → Bytes
  | bytes bs => bs
  | _ => []

/-- What `read(fd, buf, 4096)` may return. -/
def Fits : ReadResult → Prop
  | bytes bs => 0 < bs.length ∧ bs.length ≤ 4096
  | _ => True

instance : ∀ r : ReadResult, Decidable r.Fits
  | bytes _ => inferInstanceAs (Decidable (_ ∧ _))
  | eof => isTrue trivial
  | transient => isTrue trivial
  | fatal => isTrue trivial

end ReadResult

/-- The fields of a `Connection` that its reading half uses. -/
structure Incoming where
  w : World
  status : ConnectionStatus
  received : Bytes
  negative : Bool
  failed : Bool
  deriving DecidableEq, Repr

namespace Incoming

/-- The member `data`. -/
abbrev data : Nat := 0

/-- The member `errmsg`. -/
abbrev errmsg : Nat := 1

def peerClose : Src :=
  .ext (("peer close the connection".toList.map fun c => some (UInt8.ofNat c.toNat)) ++ [some 0])

/-- `errmsg = Slice("peer close the connection")`: a temporary object is made, moved from and destroyed. -/
def setErrmsg (returns : Bool) (w : World) : Option World :=
  (w.construct (sdsnew w.mem peerClose)).bind fun w1 =>
    (w1.moveAssign errmsg returns w.slices.length).bind fun w2 => w2.destruct w.slices.length

variable (returns : Bool) (c : Incoming)

/-- What is remembered of a `read`, after the check of the status (line 134). -/
def note (r : ReadResult) : Incoming :=
  { c with
    status := if c.status = .connectting then .connectted else c.status
    received := c.received ++ r.received
    failed := r = .fatal }

/-- `readFromSocket` (line 132). -/
def readFromSocket (r : ReadResult) : Option Incoming :=
  if r.nread < 0 ∧ r = .transient then some (c.note r)
  else if r.nread = 0 then (setErrmsg returns c.w).map fun w => { c.note r with w := w, status := .not_connectted }
  else
    (c.w.appendBytes data (.ext r.buf) (Int32.ofInt r.nread)).bind fun (w, _) => (w.flowOff returns).map fun w =>
      { c.note r with w := w, negative := c.negative || r.nread < 0 }

end Incoming

/-! ## The system -/

inductive ReadState
  | running (c : Incoming)
  | undefined
  deriving DecidableEq, Repr

/-- The transition function: a call of `readFromSocket`. -/
def ReadState.step (returns : Bool) : ReadState → ReadResult → Option ReadState
  | .undefined, _ => none
  | .running c, r =>
    if r.Fits then
      some (match c.readFromSocket returns r with
        | none => .undefined
        | some c' => .running c')
    else none

/-- A connection with a status, and nothing read yet. -/
def ReadState.start (status : ConnectionStatus) : ReadState := .running ⟨⟨⟨⟨[]⟩, []⟩, [none, none]⟩, status, [], false, false⟩

/-- The reading half of a connection as a transition system. -/
def incoming (returns : Bool) : System ReadState ReadResult where
  init s := s = .start .connectted
  step := ReadState.step returns

/-! ## The property and its condition -/

structure Incoming.Received (c : Incoming) : Prop where
  bytes : c.w.held Incoming.data = c.received.map some
  size : c.w.size Incoming.data = c.received.length
  nonnegative : c.negative = false
  closed : c.failed = true → c.status ≠ .connectted

def Received : ReadState → Prop
  | .running c => c.Received
  | .undefined => False

/-- The `read` fails for a transient reason.  Where the calls come back, it may also read bytes for which the string of
`data` has room or can grow, or find the end of the stream. -/
def ReadOk (returns : Bool) : ReadState → ReadResult → Prop
  | .running c, .bytes bs =>
    returns = true ∧ (bs.length ≤ c.w.avail Incoming.data ∨ Roomy (c.w.size Incoming.data) bs.length)
  | .running _, .eof => returns = true
  | _, .fatal => False
  | _, _ => True

section Reads

variable {c c' : Incoming} {w w' : World} {r : ReadResult} {bs : Bytes} {m : Mem} {x : Nat} {returns : Bool}

/-! ## The members stay -/

theorem length_initIfNeed (h : w.initIfNeed x = some w') : w'.slices.length = w.slices.length := by
  unfold World.initIfNeed at h
  split at h
  · obtain ⟨⟨m, p⟩, -, rfl⟩ := Option.map_eq_some_iff.mp h
    exact List.length_set
  · rw [Option.some.inj h]

theorem length_appendBytes {t : Src} {len : Int32} {o : Option (Option Ptr)} (h : w.appendBytes x t len = some (w', o)) :
    w'.slices.length = w.slices.length := by
  obtain ⟨w1, hinit, h1⟩ := Option.bind_eq_some_iff.mp h
  obtain ⟨⟨w2, r2⟩, hcall, he⟩ := Option.map_eq_some_iff.mp h1
  cases he
  obtain ⟨p, -, h2⟩ := Option.bind_eq_some_iff.mp hcall
  obtain ⟨⟨m, r3⟩, -, he⟩ := Option.map_eq_some_iff.mp h2
  cases he
  rw [← length_initIfNeed hinit]
  exact List.length_set

theorem length_moveAssign {s : Nat} (h : w.moveAssign x true s = some w') : w'.slices.length = w.slices.length := by
  obtain ⟨m, -, h⟩ := Option.bind_eq_some_iff.mp h
  obtain rfl := Option.some.inj h
  show ((w.slices.set x (w.data s)).set s none).length = w.slices.length
  rw [List.length_set, List.length_set]

theorem length_destruct (h : w.destruct x = some w') : w'.slices.length = w.slices.length := by
  obtain ⟨m, -, rfl⟩ := Option.map_eq_some_iff.mp h
  exact List.length_set

/-! ## The end of the stream -/

/-- The temporary object is made. -/
theorem peerClose_ok (hw : Wf w) : ∃ w1, w.construct (sdsnew w.mem Incoming.peerClose) = some w1 ∧ Wf w1 ∧
    w1.slices.length = w.slices.length + 1 ∧
    w1.held = Function.update w.held w.slices.length (w1.held w.slices.length) := by
  have hstrlen : Incoming.peerClose.strlen w.mem = some 25 := rfl
  have hread : Incoming.peerClose.read w.mem 25 = some (("peer close the connection".toList.map fun c =>
      some (UInt8.ofNat c.toNat))) := rfl
  obtain ⟨⟨m, r⟩, hnew⟩ := sdsnewlen_isSome hw.fails (by decide) fun _ _ => ⟨_, hread⟩
  have hcon : w.construct (sdsnewlen w.mem Incoming.peerClose 25) = some ⟨m, w.slices ++ [r]⟩ := by
    rw [hnew]
    rfl
  obtain ⟨hwf, hheld⟩ := construct_ok hw hcon
  refine ⟨⟨m, w.slices ++ [r]⟩, ?_, hwf, List.length_append, hheld⟩
  unfold sdsnew
  rw [if_neg (by decide), hstrlen]
  exact hcon

/-- The message is stored, and `data` stays. -/
theorem setErrmsg_ok (hw : Wf w) (hlen : 2 ≤ w.slices.length) : ∃ w', Incoming.setErrmsg true w = some w' ∧ Wf w' ∧
    2 ≤ w'.slices.length ∧ w'.held Incoming.data = w.held Incoming.data := by
  obtain ⟨w1, hcon, hw1, hlen1, hheld1⟩ := peerClose_ok hw
  have hone : Incoming.errmsg ≠ w.slices.length := by
    show 1 ≠ w.slices.length
    omega
  have hzero : Incoming.data ≠ w.slices.length := by
    show 0 ≠ w.slices.length
    omega
  obtain ⟨w2, hmove, hw2, hheld2⟩ := moveAssign_ok hw1 (x := Incoming.errmsg) (s := w.slices.length)
    (by show 1 < _; omega) (by omega) hone
  have hlen2 := length_moveAssign hmove
  obtain ⟨w3, hdel, hw3, hheld3⟩ := release_ok hw2 (x := w.slices.length) (by omega)
  have hlen3 := length_destruct hdel
  refine ⟨w3, ?_, hw3, by omega, ?_⟩
  · unfold Incoming.setErrmsg
    rw [hcon, Option.bind_some, hmove, Option.bind_some, hdel]
  · -- the message and the temporary are other objects
    rw [hheld3, Function.update_of_ne hzero, hheld2, Function.update_of_ne (by decide), Function.update_of_ne hzero,
      hheld1, Function.update_of_ne hzero]

/-! ## Bytes -/

/-- The argument of `append` for the bytes read. -/
def Incoming.arg (bs : Bytes) : Arg := .bytes (.ext (ReadResult.bytes bs).buf) (Int32.ofInt bs.length)

theorem arg_appended (hbs : (ReadResult.bytes bs).Fits) : (Incoming.arg bs).appended w = some (bs.map some) := by
  have h4096 : bs.length ≤ 4096 := hbs.2
  have hint : (Int32.ofInt bs.length).toInt = bs.length := Int32.toInt_ofInt_of_le (by omega) (by omega)
  unfold Incoming.arg Arg.appended
  dsimp only
  rw [hint, if_pos (by omega), Int.toNat_natCast]
  have hread : (Src.ext (ReadResult.bytes bs).buf).read w.mem (bs.map some).length = some (bs.map some) := read_ext
  rw [List.length_map] at hread
  exact hread

/-- The bytes are in an array of the caller, so only the room for them matters. -/
theorem callOk_arg {n : Nat} : CallOk w x (Incoming.arg bs) n ↔ n ≤ w.avail x ∨ Roomy (w.size x) n := by
  have hover : w.overlaps x ((Incoming.arg bs).source w) n = false := by
    unfold World.overlaps
    split
    · rfl
    · rfl
  have howns : w.owns x ((Incoming.arg bs).source w) = false := by
    unfold World.owns
    split
    · rfl
    · rfl
  unfold CallOk
  rw [hover, howns]
  constructor
  · rintro ⟨⟨hn, -⟩ | ⟨-, -, -, hroomy⟩, -⟩
    · exact .inl hn
    · exact .inr hroomy
  · intro h
    refine ⟨?_, fun _ => rfl⟩
    rcases Nat.lt_or_ge (w.avail x) n with hlt | hge
    · exact .inr ⟨hlt, rfl, rfl, h.resolve_left (Nat.not_le.mpr hlt)⟩
    · exact .inl ⟨hge, rfl⟩

/-- The bytes read are appended to `data` when it has room for them or can grow. -/
theorem append_read (hw : Wf w) (hlen : 2 ≤ w.slices.length) (hbs : (ReadResult.bytes bs).Fits)
    (hok : bs.length ≤ w.avail Incoming.data ∨ Roomy (w.size Incoming.data) bs.length) :
    ∃ w' o, w.append Incoming.data (Incoming.arg bs) = some (w', o) ∧ Wf w' ∧ 2 ≤ w'.slices.length ∧
      w'.held Incoming.data = w.held Incoming.data ++ bs.map some := by
  have hx : Incoming.data < w.slices.length := by
    show 0 < w.slices.length
    omega
  obtain ⟨w', o, hr, hwf, hholds, -⟩ := (append_outcome hw hx (arg_appended hbs)).1 (callOk_arg.mpr (by simpa using hok))
  have hlen' := length_appendBytes hr
  exact ⟨w', o, hr, hwf, by omega, held_of_holds hholds⟩

/-- Otherwise they are lost. -/
theorem append_read_lost (hw : Wf w) (hlen : 2 ≤ w.slices.length) (hbs : (ReadResult.bytes bs).Fits)
    (hno : ¬ (bs.length ≤ w.avail Incoming.data ∨ Roomy (w.size Incoming.data) bs.length)) {o : Option (Option Ptr)}
    (hr : w.append Incoming.data (Incoming.arg bs) = some (w', o)) : w'.held Incoming.data = [] := by
  have hx : Incoming.data < w.slices.length := by
    show 0 < w.slices.length
    omega
  have hno' : ¬ CallOk w Incoming.data (Incoming.arg bs) (bs.map some).length := by
    rw [callOk_arg]
    simpa using hno
  exact (((append_outcome hw hx (arg_appended hbs)).2 hno' w' o hr).2 rfl).held

/-! ## Runs -/

/-- What a run without bad reads keeps. -/
structure Incoming.Kept (c : Incoming) : Prop where
  wf : Wf c.w
  members : 2 ≤ c.w.slices.length
  bytes : c.w.held Incoming.data = c.received.map some
  nonnegative : c.negative = false
  good : c.failed = false

theorem Incoming.Kept.received (h : c.Kept) : c.Received := by
  refine ⟨h.bytes, ?_, h.nonnegative, fun hf => ?_⟩
  · rw [size_held h.wf, h.bytes, List.length_map]
  · rw [h.good] at hf
    cases hf

theorem readFromSocket_bytes (hbs : (ReadResult.bytes bs).Fits) : c.readFromSocket returns (.bytes bs) =
    (c.w.append Incoming.data (Incoming.arg bs)).bind fun (w, _) => (w.flowOff returns).map fun w =>
      { c.note (.bytes bs) with w := w } := by
  have hpos : 0 < bs.length := hbs.1
  have hnneg : ¬ (ReadResult.bytes bs).nread < 0 := by
    show ¬ (bs.length : Int) < 0
    omega
  have hnzero : ¬ (ReadResult.bytes bs).nread = 0 := by
    show ¬ (bs.length : Int) = 0
    omega
  unfold Incoming.readFromSocket
  rw [if_neg fun h => hnneg h.1, if_neg hnzero]
  simp only [hnneg, decide_false, Bool.or_false]
  rfl

/-- A good read. -/
theorem Incoming.Kept.read (h : c.Kept) (hr : r.Fits) (hok : ReadOk returns (.running c) r) :
    ∃ c', c.readFromSocket returns r = some c' ∧ c'.Kept := by
  cases r with
  | bytes bs =>
    obtain ⟨rfl, hroom⟩ := hok
    obtain ⟨w', o, happend, hwf, hlen, hheld⟩ := append_read h.wf h.members hr hroom
    refine ⟨{ c.note (.bytes bs) with w := w' }, ?_, hwf, hlen, ?_, h.nonnegative, rfl⟩
    · rw [readFromSocket_bytes hr, happend]
      rfl
    · show w'.held Incoming.data = (c.received ++ bs).map some
      rw [hheld, h.bytes, List.map_append]
  | eof =>
    obtain rfl : returns = true := hok
    obtain ⟨w', hset, hwf, hlen, hheld⟩ := setErrmsg_ok h.wf h.members
    refine ⟨{ c.note .eof with w := w', status := .not_connectted }, ?_, hwf, hlen, ?_, h.nonnegative, rfl⟩
    · unfold Incoming.readFromSocket
      rw [if_neg (by decide), if_pos (show ReadResult.eof.nread = 0 from rfl), hset]
      rfl
    · show w'.held Incoming.data = (c.received ++ []).map some
      rw [hheld, h.bytes, List.append_nil]
  | transient =>
    refine ⟨c.note .transient, if_pos ⟨by decide, rfl⟩, h.wf, h.members, ?_, h.nonnegative, rfl⟩
    show c.w.held Incoming.data = (c.received ++ []).map some
    rw [h.bytes, List.append_nil]
  | fatal => exact hok.elim

/-- Nothing comes back from the end of a function without a `return`. -/
theorem readFromSocket_undefined (hr : r ≠ .transient) : c.readFromSocket false r = none := by
  have hset : ∀ w, Incoming.setErrmsg false w = none := by
    intro w
    simp [Incoming.setErrmsg, moveAssign_undefined]
  unfold Incoming.readFromSocket
  rw [if_neg fun h => hr h.2]
  split_ifs
  · rw [hset]
    rfl
  · simp [World.flowOff]

/-- A bad one: a failure passes -1 to `append`, and bytes for which there is no room are lost. -/
theorem Incoming.Kept.read_bad (h : c.Kept) (hr : r.Fits) (hno : ¬ ReadOk returns (.running c) r)
    (hread : c.readFromSocket returns r = some c') : ¬ c'.Received := by
  intro hrec
  have hbad : r ≠ .transient := by
    rintro rfl
    exact hno trivial
  cases returns with
  | false =>
    rw [readFromSocket_undefined hbad] at hread
    cases hread
  | true =>
    cases r with
    | bytes bs =>
      rw [readFromSocket_bytes hr] at hread
      obtain ⟨⟨w', o⟩, happend, hread⟩ := Option.bind_eq_some_iff.mp hread
      obtain rfl := Option.some.inj hread
      have hlost := append_read_lost h.wf h.members hr (fun hroom => hno ⟨rfl, hroom⟩) happend
      have hsize : w'.held Incoming.data = (c.received ++ bs).map some := hrec.bytes
      have hpos : 0 < bs.length := hr.1
      rw [hlost] at hsize
      have hnil := (List.append_eq_nil_iff.mp (List.map_eq_nil_iff.mp hsize.symm)).2
      rw [hnil] at hpos
      exact absurd hpos (Nat.lt_irrefl 0)
    | eof => exact hno rfl
    | transient => exact hbad rfl
    | fatal =>
      unfold Incoming.readFromSocket at hread
      rw [if_neg (by decide), if_neg (by decide)] at hread
      obtain ⟨⟨w', o⟩, -, hread⟩ := Option.bind_eq_some_iff.mp hread
      obtain rfl := Option.some.inj hread
      have hneg : (c.negative || decide (ReadResult.fatal.nread < 0)) = false := hrec.nonnegative
      rw [Bool.or_eq_false_iff] at hneg
      exact absurd hneg.2 (by decide)

def ReadState.Kept : ReadState → Prop
  | .running c => c.Kept
  | .undefined => False

theorem ReadState.kept_start (status : ConnectionStatus) : (ReadState.start status).Kept := by
  have hnone : ∀ x, World.data ⟨⟨⟨[]⟩, []⟩, [none, none]⟩ x = none := by
    intro x
    match x with
    | 0 => rfl
    | 1 => rfl
    | x + 2 => rfl
  refine ⟨⟨rfl, fun x p hx => ?_, fun x y p hx _ => ?_⟩, Nat.le_refl 2, rfl, rfl, rfl⟩
  · rw [hnone x] at hx
    cases hx
  · rw [hnone x] at hx
    cases hx

theorem ReadState.Kept.received {s : ReadState} (h : s.Kept) : Received s := by
  cases s with
  | running c => exact Incoming.Kept.received h
  | undefined => exact h

theorem ReadState.Kept.step {s s' : ReadState} (h : s.Kept) (hok : ReadOk returns s r)
    (hr : (incoming returns).step s r = some s') : s'.Kept := by
  cases s with
  | undefined => exact h.elim
  | running c =>
    change (if r.Fits then _ else none) = some s' at hr
    split_ifs at hr with hfits
    obtain ⟨c', hread, hk⟩ := Incoming.Kept.read h hfits hok
    rw [hread] at hr
    rw [← Option.some.inj hr]
    exact hk

theorem ReadState.Kept.bad {s s' : ReadState} (h : s.Kept) (hno : ¬ ReadOk returns s r)
    (hr : (incoming returns).step s r = some s') : ¬ Received s' := by
  cases s with
  | undefined => exact h.elim
  | running c =>
    change (if r.Fits then _ else none) = some s' at hr
    split_ifs at hr with hfits
    rw [← Option.some.inj hr]
    cases hread : c.readFromSocket returns r with
    | none => exact id
    | some c' => exact Incoming.Kept.read_bad h hfits hno hread

/-- **The bytes received are in `data`**, in every state of a run of reads on a connection, if and only if each read fails
for a transient reason or, where the calls come back, finds the end of the stream or bytes for which there is room. -/
theorem received_iff (returns : Bool) (status : ConnectionStatus) (reads : List ReadResult) :
    Always (incoming returns) Received (.start status) reads ↔
      StepsOk (incoming returns) (ReadOk returns) (.start status) reads :=
  always_iff_stepsOk (fun _ hk => ReadState.Kept.received hk) (fun _ _ _ hk hok hr => hk.step hok hr)
    (fun _ _ _ hk hno hr => hk.bad hno hr) (ReadState.kept_start status) reads

/-- A connection is reset by its peer, and then also where the calls come back. -/
theorem reset_not_received : (¬ ∀ status reads, Always (incoming false) Received (.start status) reads) ∧
    ¬ ∀ status reads, Always (incoming true) Received (.start status) reads := by
  have hreset : ∀ returns, ∃ s', (incoming returns).step (.start .connectted) .fatal = some s' := fun _ => ⟨_, rfl⟩
  have hbad : ∀ returns, ¬ Always (incoming returns) Received (.start .connectted) [.fatal] := by
    intro returns h
    obtain ⟨s', hstep⟩ := hreset returns
    exact (ReadState.kept_start .connectted).bad id hstep (h.2 s' hstep).head
  exact ⟨fun h => hbad false (h .connectted [.fatal]), fun h => hbad true (h .connectted [.fatal])⟩

end Reads

end BeanRaft.Raft
