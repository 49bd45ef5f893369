import BeanRaft.Raft.Incoming

/-!
# BeanRaft.Raft.Link — from the replies of one node to the data of the other

`raftNode::writeHandler` at one end of a connection and `Connection::readFromSocket` at the other, over a stream that may
deliver any part of its bytes at a time, and `Connection::nonblockConnect`, which replaces the connection.

* `Link`: the two ends and the bytes on the wire.  A new connection has a new receiver and an empty wire.  `returns` is as
  in `Incoming`, also for the assignment of `errmsg` when a `write` fails.
* `Carried`: what the receiver holds, what is on the wire and what is not written yet are together the replies, from the
  first one of this connection on.
* `carried_iff`: this is so exactly when no `write` of length 0 is accepted, no `read` fails, the string of the receiver
  can grow, `nonblockConnect` is not called in the middle of a reply (`reply_written` is not reset), and no function is
  called that lacks the `return` it comes to, unless such calls come back.
-/

namespace BeanRaft.Raft

open Lts Slice

/-- What of the replies is not written yet. -/
def RaftNode.unsent (s : RaftNode) : Bytes := (s.replys.headD []).drop s.reply_written.toNat ++ s.replys.tail.flatten

/-- The bytes that the socket takes in an action. -/
def RaftNode.out (s : RaftNode) : Act → Bytes
  | .turn r => r.taken ((s.replys.headD []).drop s.reply_written.toNat)
  | _ => []

/-- `nonblockConnect` (line 122) with what `anetTcpNonBlockConnect` returned; `failed` is that of the new descriptor. -/
def RaftNode.nonblockConnect (s : RaftNode) (fd : Option Nat) : RaftNode :=
  { s with connection := ⟨fd, .connectting⟩, failed := fd.isNone }

/-- What the member `data` holds. -/
def ReadState.held : ReadState → List Byte
  | .running c => c.w.held Incoming.data
  | .undefined => []

/-- The bytes that were read. -/
def ReadState.received : ReadState → Bytes
  | .running c => c.received
  | .undefined => []

structure Link where
  node : RaftNode
  wire : Bytes
  /-- The process of the node has ended. -/
  ended : Bool
  /-- The reply that was at the front when the connection was made. -/
  first : Nat
  receiver : ReadState
  /-- The process of the node has run into undefined behaviour. -/
  undefined : Bool
  deriving DecidableEq, Repr

inductive LinkAct
  | send (a : Act)
  | nonblockConnect (fd : Option Nat)
  | recv (r : ReadResult)
  deriving DecidableEq, Repr

/-- What a `read` may return when these bytes are on the wire. -/
def ReadResult.Delivers (wire : Bytes) : ReadResult → Prop
  | bytes bs => bs <+: wire
  | eof => wire = []
  | _ => True

instance (wire : Bytes) : ∀ r : ReadResult, Decidable (r.Delivers wire)
  | .bytes bs => inferInstanceAs (Decidable (bs <+: wire))
  | .eof => inferInstanceAs (Decidable (wire = []))
  | .transient | .fatal => isTrue trivial

namespace Link

variable (returns : Bool) (s : Link)

/-- The transition function.  After a `write` that failed `writeToSocket` assigns to `errmsg`. -/
def step : LinkAct → Option Link
  | .send a =>
    if s.ended ∨ s.undefined then none
    else (s.node.step a).map fun node =>
      { s with node := node, wire := s.wire ++ s.node.out a, undefined := a = .turn .fatal ∧ returns = false }
  | .nonblockConnect fd =>
    if s.ended ∨ s.undefined ∨ s.node.looping then none
    else some ⟨s.node.nonblockConnect fd, [], false, s.node.popped, .start .connectted, false⟩
  | .recv r =>
    if r.Delivers s.wire then
      (s.receiver.step returns r).map fun receiver =>
        { s with receiver := receiver, wire := s.wire.drop r.received.length, ended := s.ended || r = .eof }
    else none

def new (fd : Nat) : Link := ⟨.new fd, [], false, 0, .start .connectted, false⟩

end Link

/-- The two ends as a transition system. -/
def link (returns : Bool) : System Link LinkAct where
  init s := ∃ fd, s = .new fd
  step := Link.step returns

/-! ## The property and its condition -/

structure Carried (s : Link) : Prop where
  defined : s.undefined = false
  node : Delivered s.node
  receiver : Received s.receiver
  replies : s.receiver.held ++ (s.wire ++ s.node.unsent).map some = (s.node.queued.drop s.first).flatten.map some

/-- Each end meets its own condition, a `write` fails only where the calls come back, and a new connection starts with a
whole reply. -/
def LinkOk (returns : Bool) (s : Link) : LinkAct → Prop
  | .send a => WritesSome s.node a ∧ (a = .turn .fatal → returns = true)
  | .nonblockConnect _ => s.node.reply_written = 0
  | .recv r => ReadOk returns s.receiver r

/-! ## The invariant -/

section Nodes

variable {s s' : RaftNode} {a : Act}

/-- What was written and what was not are the replies. -/
theorem sent_unsent (h : InStream s) : s.sent ++ s.unsent = s.queued.flatten := by
  have hreplys : (s.replys.headD []) ++ s.replys.tail.flatten = s.replys.flatten := by
    cases s.replys with
    | nil => rfl
    | cons data rest => rfl
  have hfront : s.front ++ s.unsent = s.replys.flatten := by
    unfold RaftNode.front RaftNode.unsent
    rw [← List.append_assoc, List.take_append_drop, hreplys]
  have hqueued : (s.queued.take s.popped).flatten ++ s.replys.flatten = s.queued.flatten := by
    rw [h.queue, ← List.flatten_append, List.take_append_drop]
  rw [h.sent, List.append_assoc, hfront, hqueued]

theorem advance_sent (data : Bytes) (rest : List Bytes) (ret : Int) : (s.advance data rest ret).sent = s.sent := by
  unfold RaftNode.advance
  dsimp only
  split_ifs <;> rfl

theorem advance_queued (data : Bytes) (rest : List Bytes) (ret : Int) :
    (s.advance data rest ret).queued = s.queued := by
  unfold RaftNode.advance
  dsimp only
  split_ifs <;> rfl

/-- A step appends what it writes to the bytes of the socket. -/
theorem step_sent (hs : s.step a = some s') : s'.sent = s.sent ++ s.out a ∧ s.queued <+: s'.queued := by
  cases a with
  | push data =>
    obtain ⟨-, h⟩ := Option.ite_none_left_eq_some.mp hs
    rw [← Option.some.inj h]
    exact ⟨(List.append_nil _).symm, List.prefix_append _ _⟩
  | enter =>
    obtain ⟨-, h⟩ := Option.ite_none_left_eq_some.mp hs
    rw [← Option.some.inj h]
    exact ⟨(List.append_nil _).symm, List.prefix_rfl⟩
  | leave =>
    obtain ⟨-, h⟩ := Option.ite_none_right_eq_some.mp hs
    rw [← Option.some.inj h]
    exact ⟨(List.append_nil _).symm, List.prefix_rfl⟩
  | turn r =>
    obtain ⟨-, h⟩ := Option.ite_none_right_eq_some.mp hs
    unfold RaftNode.turn at h
    split at h
    · simp at h
    · rename_i data rest hr
      obtain ⟨-, h⟩ := Option.ite_none_right_eq_some.mp h
      rw [← Option.some.inj h]
      constructor
      · rw [advance_sent]
        unfold RaftNode.out
        rw [headD_of_cons hr]
        rfl
      · rw [advance_queued]
        exact List.prefix_rfl

theorem inStream_nonblockConnect (h : InStream s) (fd : Option Nat) : InStream (s.nonblockConnect fd) := by
  refine ⟨h.queue, h.le, h.sent, h.nonneg, h.offset, h.small, ?_, ?_⟩
  · intro hfd
    have hsome : fd.isSome = true := hfd
    show fd.isNone = false
    simpa using hsome
  · rintro (hnone | hstatus)
    · show fd.isNone = true
      simpa [RaftNode.nonblockConnect] using hnone
    · cases hstatus

end Nodes

/-- The replies before the first one, the bytes that were read and those on the wire are what the socket has taken. -/
structure Link.Joined (s : Link) : Prop where
  defined : s.undefined = false
  node : InStream s.node
  receiver : s.receiver.Kept
  le : s.first ≤ s.node.queued.length
  bytes : (s.node.queued.take s.first).flatten ++ (s.receiver.received ++ s.wire) = s.node.sent

section Links

variable {s s' : Link} {a : LinkAct} {r : ReadResult} {returns : Bool}

theorem held_of_kept {c : ReadState} (h : c.Kept) : c.held = c.received.map some := by
  cases c with
  | running c => exact Incoming.Kept.bytes h
  | undefined => exact h.elim

theorem carried_of_joined (h : s.Joined) : Carried s := by
  refine ⟨h.defined, delivered_of_inStream h.node, h.receiver.received, ?_⟩
  have hall := sent_unsent h.node
  rw [← h.bytes, List.append_assoc] at hall
  have hsplit : (s.node.queued.take s.first).flatten ++ (s.node.queued.drop s.first).flatten = s.node.queued.flatten := by
    rw [← List.flatten_append, List.take_append_drop]
  have hrest := List.append_cancel_left (hall.trans hsplit.symm)
  rw [held_of_kept h.receiver, ← List.map_append, ← hrest, List.append_assoc]

/-- A `read` adds to `received` what it takes. -/
theorem received_step {c c' : ReadState} (hk : c.Kept) (hk' : c'.Kept) (hs : c.step returns r = some c') :
    c'.received = c.received ++ r.received := by
  cases c with
  | undefined => exact hk.elim
  | running c =>
    obtain ⟨-, hs⟩ := Option.ite_none_right_eq_some.mp hs
    rw [← Option.some.inj hs] at hk' ⊢
    cases hread : c.readFromSocket returns r with
    | none =>
      rw [hread] at hk'
      exact hk'.elim
    | some d =>
      show d.received = c.received ++ r.received
      unfold Incoming.readFromSocket at hread
      split_ifs at hread
      · rw [← Option.some.inj hread]
        rfl
      · obtain ⟨w, -, rfl⟩ := Option.map_eq_some_iff.mp hread
        rfl
      · obtain ⟨⟨w, o⟩, -, hread⟩ := Option.bind_eq_some_iff.mp hread
        obtain ⟨w', -, rfl⟩ := Option.map_eq_some_iff.mp hread
        rfl

/-- What is read is the front of the wire. -/
theorem received_append_drop {wire : Bytes} (h : r.Delivers wire) : r.received ++ wire.drop r.received.length = wire := by
  cases r with
  | bytes bs => exact List.prefix_iff_eq_append.mp h
  | eof => rfl
  | transient => rfl
  | fatal => rfl

theorem joined_step (h : s.Joined) (hok : LinkOk returns s a) (hs : (link returns).step s a = some s') :
    s'.Joined := by
  cases a with
  | send a =>
    obtain ⟨-, hs⟩ := Option.ite_none_left_eq_some.mp hs
    obtain ⟨node, hnode, rfl⟩ := Option.map_eq_some_iff.mp hs
    obtain ⟨hsent, hqueued⟩ := step_sent hnode
    obtain ⟨new, hnew⟩ := hqueued
    have htake : node.queued.take s.first = s.node.queued.take s.first := by
      rw [← hnew, List.take_append_of_le_length h.le]
    refine ⟨?_, inStream_step h.node hok.1 hnode, h.receiver, ?_, ?_⟩
    · refine decide_eq_false ?_
      rintro ⟨hfatal, hfalse⟩
      rw [hok.2 hfatal] at hfalse
      cases hfalse
    · have hle := h.le
      show s.first ≤ node.queued.length
      rw [← hnew, List.length_append]
      omega
    · show (node.queued.take s.first).flatten ++ (s.receiver.received ++ (s.wire ++ _)) = node.sent
      rw [htake, hsent, ← h.bytes]
      simp only [List.append_assoc]
  | nonblockConnect fd =>
    obtain ⟨-, hs⟩ := Option.ite_none_left_eq_some.mp hs
    obtain rfl := Option.some.inj hs
    refine ⟨rfl, inStream_nonblockConnect h.node fd, ReadState.kept_start _, h.node.le, ?_⟩
    have hzero : s.node.reply_written = 0 := hok
    have hfront : s.node.front = [] := by
      unfold RaftNode.front
      rw [hzero]
      rfl
    show (s.node.queued.take s.node.popped).flatten ++ ([] ++ []) = s.node.sent
    rw [h.node.sent, hfront, List.append_nil]
  | recv r =>
    obtain ⟨hdel, hs⟩ := Option.ite_none_right_eq_some.mp hs
    obtain ⟨receiver, hrecv, rfl⟩ := Option.map_eq_some_iff.mp hs
    have hkept : receiver.Kept := h.receiver.step hok hrecv
    refine ⟨h.defined, h.node, hkept, h.le, ?_⟩
    show (s.node.queued.take s.first).flatten ++ (receiver.received ++ s.wire.drop r.received.length) = s.node.sent
    rw [received_step h.receiver hkept hrecv, List.append_assoc, received_append_drop hdel]
    exact h.bytes

/-- A connection that starts in the middle of a reply does not carry its beginning. -/
theorem not_carried_nonblockConnect (h : InStream s.node) (hno : s.node.reply_written ≠ 0) (fd : Option Nat) :
    ¬ Carried ⟨s.node.nonblockConnect fd, [], false, s.node.popped, .start .connectted, false⟩ := by
  intro hc
  have hlen := congrArg List.length hc.replies
  have hnonneg := h.nonneg
  have hoffset := h.offset
  have hqueue : s.node.queued.drop s.node.popped = s.node.replys := h.queue.symm
  change (([] : List Byte) ++ ([] ++ s.node.unsent).map some).length =
    ((s.node.queued.drop s.node.popped).flatten.map some).length at hlen
  rw [hqueue] at hlen
  cases hr : s.node.replys with
  | nil =>
    rw [hr] at hoffset
    simp at hoffset
    omega
  | cons data rest =>
    rw [hr] at hoffset hlen
    simp [RaftNode.unsent, hr] at hoffset hlen
    omega

theorem not_carried_step (h : s.Joined) (hno : ¬ LinkOk returns s a) (hs : (link returns).step s a = some s') :
    ¬ Carried s' := by
  intro hc
  cases a with
  | send a =>
    obtain ⟨-, hs⟩ := Option.ite_none_left_eq_some.mp hs
    obtain ⟨node, hnode, rfl⟩ := Option.map_eq_some_iff.mp hs
    have hback : a = .turn .fatal → returns = true := by
      intro hfatal
      have hdefined := of_decide_eq_false hc.defined
      simpa [hfatal] using hdefined
    have hzero : ¬ WritesSome s.node a := fun hsome => hno ⟨hsome, hback⟩
    cases a with
    | push | enter | leave => exact hzero trivial
    | turn r =>
      obtain ⟨-, hturn⟩ := Option.ite_none_right_eq_some.mp hnode
      exact not_delivered_turn h.node hzero hturn hc.node
  | nonblockConnect fd =>
    obtain ⟨-, hs⟩ := Option.ite_none_left_eq_some.mp hs
    obtain rfl := Option.some.inj hs
    exact not_carried_nonblockConnect h.node hno fd hc
  | recv r =>
    obtain ⟨-, hs⟩ := Option.ite_none_right_eq_some.mp hs
    obtain ⟨receiver, hrecv, rfl⟩ := Option.map_eq_some_iff.mp hs
    exact h.receiver.bad hno hrecv hc.receiver

end Links

/-- A reply of three bytes: one is written, the connection is replaced, and the new receiver gets the other two. -/
example :
    (((link true).exec (.new 5) [.send (.push [1, 2, 3]), .send .enter, .send (.turn (.accept 1)),
        .nonblockConnect (some 6), .send .enter, .send (.turn (.accept 2)), .recv (.bytes [2, 3])]).map
      (fun s => (s.receiver.received, s.node.replys))) = some ([2, 3], []) := by
  decide +kernel

end BeanRaft.Raft
