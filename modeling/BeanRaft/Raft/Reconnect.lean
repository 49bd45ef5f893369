import BeanRaft.Net.Connect
import BeanRaft.Raft.Incoming

/-!
# BeanRaft.Raft.Reconnect — the descriptor of a Connection

`Connection::nonblockConnect` of `connection.cpp` over the sockets of `anet.cpp`, with what `readFromSocket` and
`writeToSocket` do to `fd` and `status`.  No method of a Connection closes a descriptor.  A `read` that fails for a reason
that is not transient is undefined, as in `Incoming`, and so are the calls that come to the end of a function without its
`return`, unless they come back (`returns`).

* `Owned`: the one descriptor that is open is that of the Connection.  `owned_iff`: this is so exactly when
  `nonblockConnect` is called only without a descriptor, no `write` makes the Connection forget its own, and nothing
  undefined is called.
-/

namespace BeanRaft.Raft

open Lts Lib Net

/-- The sockets of the thread, and the Connection among them. -/
structure Peer where
  sockets : Sockets
  connection : Connection
  undefined : Bool
  deriving DecidableEq, Repr

inductive PeerAct
  | nonblockConnect (ip : Bytes) (port : Int) (answers : List (KernelAnswer Reply))
  | readFromSocket (r : ReadResult)
  | writeToSocket (data : Bytes) (r : WriteResult)
  deriving DecidableEq, Repr

namespace Peer

variable (returns : Bool) (p : Peer)

/-- The sockets when `anetTcpNonBlockConnect` is called with the local `errbuf`. -/
def enter (answers : List (KernelAnswer Reply)) : Sockets :=
  { p.sockets with kernel := { p.sockets.kernel with answers := answers }, errbuf := true, err := none }

/-- `nonblockConnect` (line 122); the status is that of a connect that goes on, also after a failure. -/
def nonblockConnect (ip : Bytes) (port : Int) (answers : List (KernelAnswer Reply)) : Peer :=
  let r := (p.enter answers).anetTcpNonBlockConnect ip port
  ⟨r.1, ⟨r.2, .connectting⟩, p.undefined⟩

/-- The status after `readFromSocket` (line 132).  Without a descriptor the `read` fails, and only a transient failure comes
to a `return`. -/
def readFromSocket (r : ReadResult) : Peer :=
  let status := if p.connection.status = .connectting then .connectted else p.connection.status
  { p with
    connection := { p.connection with status := if r = .eof then .not_connectted else status }
    undefined := r ≠ .transient ∧ (r = .fatal ∨ returns = false) }

/-- `writeToSocket` (line 153); `errmsg` is assigned to when the `write` has failed. -/
def writeToSocket (r : WriteResult) : Peer :=
  { p with connection := (p.connection.writeToSocket r).1, undefined := r = .fatal ∧ returns = false }

/-- The transition function: a `read` of the descriptor -1 fails. -/
def step : PeerAct → Option Peer
  | .nonblockConnect ip port answers => if p.undefined then none else some (p.nonblockConnect ip port answers)
  | .readFromSocket r =>
    if ¬ p.undefined ∧ r.Fits ∧ (p.connection.fd = none → r = .fatal) then some (p.readFromSocket returns r) else none
  | .writeToSocket data r =>
    if ¬ p.undefined ∧ r.Fits p.connection.fd data.length data.length then some (p.writeToSocket returns r) else none

/-- A Connection that has no descriptor yet, among those of other threads. -/
def start (others : List Nat) : Peer := ⟨⟨⟨[], others, [], 0, []⟩, 0, false, none⟩, ⟨none, .not_connectted⟩, false⟩

end Peer

/-- The Connection as a transition system. -/
def peer (returns : Bool) : System Peer PeerAct where
  init p := ∃ others, p = .start others
  step := Peer.step returns

/-! ## The property and its condition -/

structure Owned (p : Peer) : Prop where
  defined : p.undefined = false
  fds : p.sockets.kernel.fds = p.connection.fd.toList
  strays : p.sockets.kernel.strays = []
  lists : p.sockets.lists = 0

/-- `nonblockConnect` is called without a descriptor, and a `write` neither fails for a reason that is not transient nor
writes nothing while there is one.  A `read` fails for a transient reason or, where the calls come back, reads bytes or the
end of the stream; and a `write` fails only where they do. -/
def KeepsFd (returns : Bool) (p : Peer) : PeerAct → Prop
  | .nonblockConnect _ _ _ => p.connection.fd = none
  | .readFromSocket r => r = .transient ∨ r ≠ .fatal ∧ returns = true
  | .writeToSocket _ r => (p.connection.fd = none ∨ r ≠ .fatal ∧ r ≠ .accept 0) ∧ (r = .fatal → returns = true)

instance (returns : Bool) (p : Peer) : ∀ a, Decidable (KeepsFd returns p a)
  | .nonblockConnect _ _ _ => inferInstanceAs (Decidable (_ = _))
  | .readFromSocket _ => inferInstanceAs (Decidable (_ ∨ _))
  | .writeToSocket _ _ => inferInstanceAs (Decidable (_ ∧ _))

section Peers

variable {p p' : Peer} {a : PeerAct} {returns : Bool} {r : ReadResult}

/-- The new socket, when there is one, is held beside the old ones. -/
theorem nonblockConnect_fds (h : Owned p) (ip : Bytes) (port : Int) (answers : List (KernelAnswer Reply)) :
    (p.nonblockConnect ip port answers).sockets.kernel.fds =
        (p.nonblockConnect ip port answers).connection.fd.toList ++ p.connection.fd.toList ∧
      (p.nonblockConnect ip port answers).sockets.kernel.strays = [] ∧
      (p.nonblockConnect ip port answers).sockets.lists = 0 := by
  have hold : (p.enter answers).kernel.held.map Prod.fst = p.connection.fd.toList := h.fds
  have hstrays : (p.enter answers).kernel.strays = [] := h.strays
  have hlists : (p.enter answers).lists + 0 = 0 := by
    rw [Int.add_zero]
    exact h.lists
  unfold Peer.nonblockConnect Sockets.anetTcpNonBlockConnect Kernel.fds
  dsimp only
  have hends : Ends (p.enter answers) 0 (fun _ => True) 
      ((p.enter answers).anetTcpGenericConnect ip port none ⟨true, false⟩) :=
    tcpGenericConnect_ends _ _ _ _ _ (by simp) (by simp)
  rcases hends with ⟨σ, hr, hσ, -⟩ | ⟨σ, s, k, hr, hσ, -⟩
  · rw [hr]
    dsimp only
    rw [hσ.kernel.held, hσ.kernel.strays, hσ.lists]
    exact ⟨hold, hstrays, hlists⟩
  · rw [hr]
    dsimp only
    rw [hσ.kernel.held, hσ.kernel.strays, hσ.lists, List.map_append, hold]
    exact ⟨rfl, hstrays, hlists⟩

/-- A `write` that is not the end of the connection leaves the descriptor, and one that is forgets it. -/
theorem writeToSocket_fd (c : Connection) (r : WriteResult) :
    (c.writeToSocket r).1.fd = if r = .fatal ∨ r = .accept 0 then none else c.fd := by
  cases r with
  | transient => simp [Connection.writeToSocket]
  | fatal => simp [Connection.writeToSocket]
  | accept n =>
    by_cases hn : n = 0
    · simp [Connection.writeToSocket, hn]
    · simp [Connection.writeToSocket, hn]

/-- When a `read` comes back. -/
theorem readFromSocket_defined :
    (p.readFromSocket returns r).undefined = false ↔ r = .transient ∨ r ≠ .fatal ∧ returns = true := by
  unfold Peer.readFromSocket
  cases r <;> simp

theorem owned_step (h : Owned p) (hok : KeepsFd returns p a) (hs : (peer returns).step p a = some p') : Owned p' := by
  cases a with
  | nonblockConnect ip port answers =>
    obtain ⟨-, hs⟩ := Option.ite_none_left_eq_some.mp hs
    obtain rfl := Option.some.inj hs
    obtain ⟨hfds, hstrays, hlists⟩ := nonblockConnect_fds h ip port answers
    have hnone : p.connection.fd = none := hok
    rw [hnone, Option.toList_none, List.append_nil] at hfds
    exact ⟨h.defined, hfds, hstrays, hlists⟩
  | readFromSocket r =>
    obtain ⟨-, hs⟩ := Option.ite_none_right_eq_some.mp hs
    obtain rfl := Option.some.inj hs
    exact ⟨readFromSocket_defined.mpr hok, h.fds, h.strays, h.lists⟩
  | writeToSocket data r =>
    obtain ⟨-, hs⟩ := Option.ite_none_right_eq_some.mp hs
    obtain rfl := Option.some.inj hs
    obtain ⟨hkeeps, hback⟩ := hok
    refine ⟨?_, h.fds.trans ?_, h.strays, h.lists⟩
    · refine decide_eq_false ?_
      rintro ⟨hfatal, hfalse⟩
      rw [hback hfatal] at hfalse
      cases hfalse
    show p.connection.fd.toList = (p.connection.writeToSocket r).1.fd.toList
    rw [writeToSocket_fd]
    rcases hkeeps with hnone | ⟨hfatal, hzero⟩
    · rw [hnone]
      split_ifs <;> rfl
    · rw [if_neg (by simp [hfatal, hzero])]

theorem not_owned_step (h : Owned p) (hno : ¬ KeepsFd returns p a) (hs : (peer returns).step p a = some p') :
    ¬ Owned p' := by
  intro h'
  cases a with
  | nonblockConnect ip port answers =>
    obtain ⟨-, hs⟩ := Option.ite_none_left_eq_some.mp hs
    obtain rfl := Option.some.inj hs
    obtain ⟨hfds, -, -⟩ := nonblockConnect_fds h ip port answers
    rw [h'.fds] at hfds
    have hnil := List.self_eq_append_right.mp hfds
    apply hno
    show p.connection.fd = none
    simpa using hnil
  | readFromSocket r =>
    obtain ⟨-, hs⟩ := Option.ite_none_right_eq_some.mp hs
    obtain rfl := Option.some.inj hs
    exact hno (readFromSocket_defined.mp h'.defined)
  | writeToSocket data r =>
    obtain ⟨-, hs⟩ := Option.ite_none_right_eq_some.mp hs
    obtain rfl := Option.some.inj hs
    have hfds : p.connection.fd.toList = (p.connection.writeToSocket r).1.fd.toList := h.fds.symm.trans h'.fds
    rw [writeToSocket_fd] at hfds
    have hdefined : ¬ (r = .fatal ∧ returns = false) := of_decide_eq_false h'.defined
    refine hno ⟨?_, fun hfatal => ?_⟩
    · by_cases hend : r = .fatal ∨ r = .accept 0
      · rw [if_pos hend] at hfds
        left
        simpa using hfds
      · exact .inr (not_or.mp hend)
    · simpa [hfatal] using hdefined

end Peers

/-- **A descriptor is lost exactly by a connect that is not the first, and by a `write` that fails or writes nothing**, in
the runs that call nothing undefined. -/
theorem owned_iff (returns : Bool) (others : List Nat) (acts : List PeerAct) :
    Always (peer returns) Owned (.start others) acts ↔ StepsOk (peer returns) (KeepsFd returns) (.start others) acts := by
  refine always_iff_stepsOk (I := Owned) ?_ ?_ ?_ ⟨rfl, rfl, rfl, rfl⟩ acts
  · intro p h
    exact h
  · intro p a p' h hok hs
    exact owned_step h hok hs
  · intro p a p' h hno hs
    exact not_owned_step h hno hs

/-- The peer closes the connection: the status says so, and the descriptor stays.  The connect after it takes another one. -/
example :
    (((peer true).exec (.start []) [
      .nonblockConnect [49] 80 [⟨some 0, 0, [(peerQuery [49] 80, [⟨2, []⟩])], []⟩, ⟨some 7, 0, [], []⟩,
        ⟨some 0, 0, [], []⟩, ⟨some 0, 0, [], []⟩, ⟨some 0, 0, [], []⟩, ⟨some 0, 0, [], []⟩],
      .readFromSocket .eof,
      .nonblockConnect [49] 80 [⟨some 0, 0, [(peerQuery [49] 80, [⟨2, []⟩])], []⟩, ⟨some 8, 0, [], []⟩, ⟨some 0, 0, [], []⟩, ⟨some 0, 0, [], []⟩,
        ⟨some 0, 0, [], []⟩, ⟨some 0, 0, [], []⟩]]).map
      (fun p => (p.sockets.kernel.fds, p.connection.fd))) = some ([8, 7], some 8) := by
  decide

end BeanRaft.Raft
