import Mathlib.Data.List.Basic
import BeanRaft.Lib.Lts
import BeanRaft.Lib.CInt

/-!
# BeanRaft.Raft.Connection — the outgoing bytes of a raftNode

`Connection::writeToSocket` and `raftNode::writeHandler` of `connection.cpp`, over an environment that decides every
`write(2)` (`WriteResult`).  One action is a push of a reply, the entry of the handler, one turn of its loop, or its
end with an empty queue.

* `queued`, `popped`, `sent` and `failed` are history: all replies ever pushed, how many were popped, the bytes the
  socket accepted, and whether a `write` failed for a reason that is not transient.
* `Delivered`: the bytes accepted are the queued ones in order.  `delivered_iff`: this is so exactly when no write of
  length 0 is accepted.  `writeToSocket` takes its result 0 for a closed connection.
-/

namespace BeanRaft.Raft

open Lts CInt

abbrev Bytes := List UInt8

inductive ConnectionStatus
  | not_connectted
  | connectting
  | connectted
  | error
  deriving DecidableEq, Repr

/-- The fields of a `Connection` that its writing half uses; `fd` is `none` for -1. -/
structure Connection where
  fd : Option Nat
  status : ConnectionStatus
  deriving DecidableEq, Repr

/-- A result of `write(2)`: it accepts some bytes, fails with `EAGAIN`, `EWOULDBLOCK` or `EINTR`, or fails with
another errno. -/
inductive WriteResult
  | accept (n : Nat)
  | transient
  | fatal
  deriving DecidableEq, Repr

/-- What `write(fd, data, len)` may return, with `avail` bytes behind `data`: a length above `SSIZE_MAX`, which a
negative `len` becomes, is refused, and so is a descriptor -1. -/
def WriteResult.Fits (fd : Option Nat) (len : Int) (avail : Nat) : WriteResult → Prop
  | accept n => fd.isSome = true ∧ 0 ≤ len ∧ (n : Int) ≤ len ∧ n ≤ avail ∧ (len = 0 ∨ 0 < n)
  | transient => fd.isSome = true
  | fatal => True

instance (fd : Option Nat) (len : Int) (avail : Nat) (r : WriteResult) : Decidable (r.Fits fd len avail) := by
  cases r <;> unfold WriteResult.Fits <;> infer_instance

/-- The bytes a `write` takes. -/
def WriteResult.taken (data : Bytes) : WriteResult → Bytes
  | accept n => data.take n
  | _ => []

/-- `writeToSocket` (line 153): the connection after the call and the value returned.  What a `write` accepts is at
most `len` and so an `int`. -/
def Connection.writeToSocket (c : Connection) : WriteResult → Connection × Int
  | .transient => (c, -1)
  | .fatal => (⟨none, .not_connectted⟩, -1)
  | .accept n => if n = 0 then (⟨none, .not_connectted⟩, 0) else (c, n)

structure RaftNode where
  replys : List Bytes
  reply_written : Int
  connection : Connection
  /-- In the loop of `writeHandler`. -/
  looping : Bool
  queued : List Bytes
  popped : Nat
  sent : Bytes
  failed : Bool
  deriving DecidableEq, Repr

inductive Act
  | push (data : Bytes)
  | enter
  | turn (r : WriteResult)
  | leave
  deriving DecidableEq, Repr

namespace RaftNode

variable (s : RaftNode)

/-- The `int` that the handler passes as the length (line 229). -/
def should_write (data : Bytes) : Int := int32 (data.length - s.reply_written)

/-- The state after the call of `writeToSocket` in a turn. -/
def written (data : Bytes) (r : WriteResult) : RaftNode :=
  { s with
    connection := (s.connection.writeToSocket r).1
    sent := s.sent ++ r.taken (data.drop s.reply_written.toNat)
    failed := s.failed || r = .fatal }

/-- The rest of a turn with the value `ret` of `writeToSocket` (lines 232-242). -/
def advance (data : Bytes) (rest : List Bytes) (ret : Int) : RaftNode :=
  if ret = -1 then { s with looping := false }
  else
    let reply_written := int32 (s.reply_written + ret)
    if uint64 reply_written < data.length then { s with reply_written := reply_written, looping := false }
    else { s with replys := rest, reply_written := 0, popped := s.popped + 1 }

/-- One turn of the loop of `writeHandler` (lines 227-243); a negative offset is outside the buffer. -/
def turn (r : WriteResult) : Option RaftNode :=
  match s.replys with
  | [] => none
  | data :: rest =>
    if 0 ≤ s.reply_written ∧ r.Fits s.connection.fd (s.should_write data) (data.length - s.reply_written.toNat) then
      some ((s.written data r).advance data rest (s.connection.writeToSocket r).2)
    else none

/-- The transition function. -/
def step : Act → Option RaftNode
  | .push data => if s.looping then none else some { s with replys := s.replys ++ [data], queued := s.queued ++ [data] }
  | .enter => if s.looping then none else some { s with looping := true }
  | .turn r => if s.looping then s.turn r else none
  | .leave => if s.looping ∧ s.replys = [] then some { s with looping := false } else none

/-- A node with a connection and without replies. -/
def new (fd : Nat) : RaftNode := ⟨[], 0, ⟨some fd, .connectted⟩, false, [], 0, [], false⟩

end RaftNode

/-- The node as a transition system. -/
def raftNode : System RaftNode Act where
  init s := ∃ fd, s = .new fd
  step := RaftNode.step

/-! ## The property and its condition -/

variable {s s' : RaftNode}

structure Delivered (s : RaftNode) : Prop where
  bytes : s.sent <+: s.queued.flatten
  /-- A reply is popped only when all its bytes were accepted. -/
  popped : s.replys = s.queued.drop s.popped ∧ (s.queued.take s.popped).flatten <+: s.sent
  offset : 0 ≤ s.reply_written ∧ ∀ data, s.replys.head? = some data → s.reply_written ≤ data.length
  marked : s.connection.fd = none ∨ s.connection.status = .not_connectted → s.failed = true

/-- No `write` of length 0 is accepted. -/
def WritesSome (s : RaftNode) : Act → Prop
  | .turn (.accept _) => ∀ data, s.replys.head? = some data → s.should_write data ≠ 0
  | _ => True

instance (s : RaftNode) : ∀ a, Decidable (WritesSome s a)
  | .turn (.accept _) =>
    match h : s.replys.head? with
    | none => isTrue fun data hd => by rw [h] at hd; cases hd
    | some d =>
      decidable_of_iff (s.should_write d ≠ 0)
        ⟨fun hk data hd => by rw [h] at hd; cases hd; exact hk, fun hk => hk d h⟩
  | .turn .transient | .turn .fatal | .push _ | .enter | .leave => isTrue trivial

/-! ## The invariant -/

/-- The part of the front reply that the socket has accepted. -/
def RaftNode.front (s : RaftNode) : Bytes := (s.replys.headD []).take s.reply_written.toNat

/-- The socket has the popped replies and the part of the front one.  The offset stays below the size of the front
reply modulo `2 ^ 32`, which is all that `should_write` sees of it. -/
structure InStream (s : RaftNode) : Prop where
  queue : s.replys = s.queued.drop s.popped
  le : s.popped ≤ s.queued.length
  sent : s.sent = (s.queued.take s.popped).flatten ++ s.front
  nonneg : 0 ≤ s.reply_written
  offset : s.reply_written ≤ (s.replys.headD []).length % 2 ^ 32
  small : 0 < s.reply_written → (s.replys.headD []).length % 2 ^ 32 < 2 ^ 31
  live : s.connection.fd.isSome = true → s.failed = false
  marked : s.connection.fd = none ∨ s.connection.status = .not_connectted → s.failed = true

theorem headD_of_cons {data : Bytes} {rest : List Bytes} (h : s.replys = data :: rest) : s.replys.headD [] = data := by
  rw [h]
  rfl

theorem delivered_of_inStream (h : InStream s) : Delivered s := by
  refine ⟨?_, ⟨h.queue, ?_⟩, ⟨h.nonneg, fun data hd => ?_⟩, h.marked⟩
  · have hsplit : s.queued.flatten = (s.queued.take s.popped).flatten ++ s.replys.flatten := by
      rw [h.queue, ← List.flatten_append, List.take_append_drop]
    rw [h.sent, hsplit]
    refine (List.prefix_append_right_inj _).mpr ?_
    unfold RaftNode.front
    cases s.replys with
    | nil => simp
    | cons data rest => exact (List.take_prefix _ _).trans (List.prefix_append _ _)
  · rw [h.sent]
    exact List.prefix_append _ _
  · have hoff := h.offset
    rw [List.headD_eq_head?_getD, hd, Option.getD_some] at hoff
    omega

/-! ## One turn -/

section Turn

variable {data : Bytes} {rest : List Bytes} {r : WriteResult}

/-- A write of `n` bytes goes on where the last one ended. -/
theorem take_append_taken (data : Bytes) (k n : Nat) : data.take k ++ (data.drop k).take n = data.take (k + n) :=
  (List.take_add ..).symm

/-- How far a write of a positive length gets: within what `should_write` sees of the reply. -/
theorem offset_add_le {n : Nat} (h : InStream s) (hr : s.replys = data :: rest) (hn : 0 < n)
    (hlen : (n : Int) ≤ s.should_write data) :
    s.reply_written + n ≤ data.length % 2 ^ 32 ∧ (data.length : Int) % 2 ^ 32 < 2 ^ 31 := by
  have hoff := h.offset
  have hsmall := h.small
  have hpos := h.nonneg
  rw [headD_of_cons hr] at hoff hsmall
  simp only [RaftNode.should_write, int32, Int.bmod] at hlen
  split at hlen <;> omega

/-- What the rest of the turn does with a positive result: it compares the new offset with the size of the reply. -/
theorem advance_accept {n : Nat} (h : InStream s) (hn : 0 < n)
    (hle : s.reply_written + n ≤ data.length % 2 ^ 32 ∧ (data.length : Int) % 2 ^ 32 < 2 ^ 31) :
    (s.written data (.accept n)).advance data rest n =
      if (s.reply_written + n).toNat < data.length then
        { s.written data (.accept n) with reply_written := s.reply_written + n, looping := false }
      else { s.written data (.accept n) with replys := rest, reply_written := 0, popped := s.popped + 1 } := by
  have hpos := h.nonneg
  have hint : int32 (s.reply_written + n) = s.reply_written + n := int32_of_range (by omega) (by omega)
  have huint : uint64 (s.reply_written + n) = (s.reply_written + n).toNat := uint64_of_range (by omega) (by omega)
  unfold RaftNode.advance
  rw [if_neg (by omega)]
  show (if uint64 (int32 (s.reply_written + n)) < data.length then
    { s.written data (.accept n) with reply_written := int32 (s.reply_written + n), looping := false }
    else _) = _
  rw [hint, huint]
  rfl

/-- The connection stays up. -/
theorem written_accept {n : Nat} (data : Bytes) (hn : 0 < n) :
    (s.written data (.accept n)).connection = s.connection ∧ (s.written data (.accept n)).failed = s.failed := by
  simp [RaftNode.written, Connection.writeToSocket, Nat.pos_iff_ne_zero.mp hn]

/-- The bytes accepted so far, after a write of `n`. -/
theorem sent_accept {n : Nat} (h : InStream s) (hr : s.replys = data :: rest) :
    (s.written data (.accept n)).sent = (s.queued.take s.popped).flatten ++ data.take (s.reply_written + n).toNat := by
  have hpos := h.nonneg
  have hfront : s.front = data.take s.reply_written.toNat := by
    unfold RaftNode.front
    rw [headD_of_cons hr]
  show s.sent ++ (data.drop s.reply_written.toNat).take n = _
  rw [h.sent, hfront, List.append_assoc, take_append_taken]
  congr 2
  omega

/-- The part of the front reply is written, and the handler waits for the socket. -/
theorem inStream_more {n : Nat} (h : InStream s) (hr : s.replys = data :: rest) (hn : 0 < n)
    (hle : s.reply_written + n ≤ data.length % 2 ^ 32 ∧ (data.length : Int) % 2 ^ 32 < 2 ^ 31) :
    InStream { s.written data (.accept n) with reply_written := s.reply_written + n, looping := false } := by
  have hpos := h.nonneg
  have hmod : (data.length : Int) % 2 ^ 32 ≤ data.length := by omega
  obtain ⟨hconn, hfail⟩ := written_accept (s := s) data hn
  have hhead : (s.written data (.accept n)).replys.headD [] = data := headD_of_cons hr
  refine ⟨h.queue, h.le, ?_, by show 0 ≤ s.reply_written + n; omega, ?_, ?_, ?_, ?_⟩
  · rw [sent_accept h hr]
    unfold RaftNode.front
    rw [hhead]
    rfl
  · show s.reply_written + n ≤ _
    rw [hhead]
    omega
  · intro _
    rw [hhead]
    omega
  · rw [hconn, hfail]
    exact h.live
  · rw [hconn, hfail]
    exact h.marked

/-- The front reply is written whole, and popped. -/
theorem inStream_popped {n : Nat} (h : InStream s) (hr : s.replys = data :: rest) (hn : 0 < n)
    (hlast : data.length ≤ (s.reply_written + n).toNat) :
    InStream { s.written data (.accept n) with replys := rest, reply_written := 0, popped := s.popped + 1 } := by
  obtain ⟨hconn, hfail⟩ := written_accept (s := s) data hn
  have hqueue : s.queued.drop s.popped = data :: rest := by rw [← h.queue, hr]
  have hall : data.take (s.reply_written + n).toNat = data := List.take_of_length_le hlast
  refine ⟨?_, ?_, ?_, Int.le_refl 0, ?_, fun hz => absurd hz (Int.lt_irrefl 0), ?_, ?_⟩
  · show rest = s.queued.drop (s.popped + 1)
    rw [← List.drop_drop, hqueue]
    rfl
  · have hlen := congrArg List.length hqueue
    rw [List.length_drop, List.length_cons] at hlen
    show s.popped + 1 ≤ s.queued.length
    omega
  · have hnext : s.queued.take (s.popped + 1) = s.queued.take s.popped ++ [data] := by
      have hget : s.queued[s.popped]? = some data := by
        rw [← Nat.add_zero s.popped, ← List.getElem?_drop, hqueue]
        rfl
      rw [List.take_add_one, hget]
      rfl
    show (s.written data (.accept n)).sent = (s.queued.take (s.popped + 1)).flatten ++ _
    rw [sent_accept h hr, hall, hnext, List.flatten_append]
    simp [RaftNode.front]
  · exact Int.emod_nonneg _ (by decide)
  · rw [hconn, hfail]
    exact h.live
  · rw [hconn, hfail]
    exact h.marked

/-- A write that accepts bytes moves the offset, and pops the reply when it was the last of it. -/
theorem inStream_accept {n : Nat} (h : InStream s) (hr : s.replys = data :: rest) (hn : 0 < n)
    (hlen : (n : Int) ≤ s.should_write data) :
    InStream ((s.written data (.accept n)).advance data rest n) := by
  have hle := offset_add_le h hr hn hlen
  rw [advance_accept h hn hle]
  split_ifs with hlt
  · exact inStream_more h hr hn hle
  · exact inStream_popped h hr hn (Nat.le_of_not_lt hlt)

theorem inStream_turn (h : InStream s) (hok : WritesSome s (.turn r)) (hs : s.turn r = some s') : InStream s' := by
  unfold RaftNode.turn at hs
  split at hs
  · simp at hs
  · rename_i data rest hr
    split_ifs at hs with hfit
    obtain rfl := Option.some.inj hs
    obtain ⟨-, hfit⟩ := hfit
    cases r with
    | accept n =>
      obtain ⟨-, -, hlen, -, hpos⟩ := hfit
      have hne := hok data (by rw [hr]; rfl)
      have hn : 0 < n := hpos.resolve_left hne
      have hret : (s.connection.writeToSocket (.accept n)).2 = n := by
        simp [Connection.writeToSocket, Nat.pos_iff_ne_zero.mp hn]
      rw [hret]
      exact inStream_accept h hr hn hlen
    | transient =>
      have hsent : s.sent ++ [] = s.sent := List.append_nil _
      refine ⟨h.queue, h.le, ?_, h.nonneg, h.offset, h.small, ?_, ?_⟩
      · show s.sent ++ [] = _
        rw [hsent]
        exact h.sent
      · simpa [RaftNode.written, RaftNode.advance, Connection.writeToSocket] using h.live
      · simpa [RaftNode.written, RaftNode.advance, Connection.writeToSocket] using h.marked
    | fatal =>
      have hsent : s.sent ++ [] = s.sent := List.append_nil _
      refine ⟨h.queue, h.le, ?_, h.nonneg, h.offset, h.small, ?_, ?_⟩
      · show s.sent ++ [] = _
        rw [hsent]
        exact h.sent
      · intro hf
        cases hf
      · intro _
        simp [RaftNode.written, RaftNode.advance, Connection.writeToSocket]

/-- An accepted write of length 0 marks a connection that never failed. -/
theorem not_delivered_turn (h : InStream s) (hno : ¬ WritesSome s (.turn r)) (hs : s.turn r = some s') :
    ¬ Delivered s' := by
  cases r with
  | transient => exact absurd trivial hno
  | fatal => exact absurd trivial hno
  | accept n =>
    simp only [WritesSome, not_forall, not_not] at hno
    obtain ⟨data, hd, hzero⟩ := hno
    unfold RaftNode.turn at hs
    split at hs
    · simp at hs
    · rename_i data' rest hr
      obtain rfl : data' = data := by
        rw [hr] at hd
        exact Option.some.inj hd
      split_ifs at hs with hfit
      obtain rfl := Option.some.inj hs
      obtain ⟨-, hfd, -, hlen, -⟩ := hfit
      rw [hzero] at hlen
      obtain rfl : n = 0 := by omega
      intro hdel
      have hmark := hdel.marked
      have hlive := h.live hfd
      simp only [RaftNode.written, RaftNode.advance, Connection.writeToSocket] at hmark
      revert hmark
      split_ifs <;> simp [hlive]

end Turn

theorem inStream_push (h : InStream s) (data : Bytes) :
    InStream { s with replys := s.replys ++ [data], queued := s.queued ++ [data] } := by
  have hqueue : s.replys ++ [data] = (s.queued ++ [data]).drop s.popped := by
    rw [List.drop_append_of_le_length h.le, h.queue]
  have htake : (s.queued ++ [data]).take s.popped = s.queued.take s.popped := List.take_append_of_le_length h.le
  have hle : s.popped ≤ (s.queued ++ [data]).length := by
    rw [List.length_append]
    exact Nat.le_add_right_of_le h.le
  cases hr : s.replys with
  | nil =>
    -- nothing of the new reply is written yet
    have hoff := h.offset
    rw [hr] at hoff
    have hzero : s.reply_written = 0 := Int.le_antisymm hoff h.nonneg
    have hsent : s.sent = (s.queued.take s.popped).flatten := by
      rw [h.sent]
      simp [RaftNode.front, hzero]
    refine ⟨hr ▸ hqueue, hle, ?_, h.nonneg, ?_, ?_, h.live, h.marked⟩
    · show s.sent = ((s.queued ++ [data]).take s.popped).flatten ++ data.take s.reply_written.toNat
      rw [htake, hsent, hzero]
      exact (List.append_nil _).symm
    · show s.reply_written ≤ _
      rw [hzero]
      exact Int.emod_nonneg _ (by decide)
    · intro hpos
      have hpos' : 0 < s.reply_written := hpos
      omega
  | cons front rest =>
    have hhead : (s.replys ++ [data]).headD [] = s.replys.headD [] := by rw [hr]; rfl
    rw [← hr]
    refine ⟨hqueue, hle, ?_, h.nonneg, ?_, ?_, h.live, h.marked⟩
    · show s.sent = ((s.queued ++ [data]).take s.popped).flatten ++ ((s.replys ++ [data]).headD []).take _
      rw [htake, hhead]
      exact h.sent
    · show s.reply_written ≤ ((s.replys ++ [data]).headD []).length % 2 ^ 32
      rw [hhead]
      exact h.offset
    · show 0 < s.reply_written → ((s.replys ++ [data]).headD []).length % 2 ^ 32 < 2 ^ 31
      rw [hhead]
      exact h.small

theorem inStream_step {a : Act} (h : InStream s) (hok : WritesSome s a) (hs : s.step a = some s') : InStream s' := by
  cases a with
  | push data =>
    simp only [RaftNode.step] at hs
    split at hs
    · simp at hs
    · obtain rfl := Option.some.inj hs
      exact inStream_push h data
  | enter =>
    simp only [RaftNode.step] at hs
    split at hs
    · simp at hs
    · obtain rfl := Option.some.inj hs
      exact ⟨h.queue, h.le, h.sent, h.nonneg, h.offset, h.small, h.live, h.marked⟩
  | turn r =>
    simp only [RaftNode.step] at hs
    split at hs
    · exact inStream_turn h hok hs
    · simp at hs
  | leave =>
    simp only [RaftNode.step, Option.ite_none_right_eq_some, Option.some.injEq] at hs
    obtain ⟨-, rfl⟩ := hs
    exact ⟨h.queue, h.le, h.sent, h.nonneg, h.offset, h.small, h.live, h.marked⟩

theorem inStream_new (fd : Nat) : InStream (.new fd) :=
  ⟨rfl, Nat.le_refl 0, rfl, Int.le_refl 0, Int.le_refl 0, fun h => absurd h (Int.lt_irrefl 0), fun _ => rfl,
    fun h => by rcases h with h | h <;> cases h⟩

/-- **When the socket gets the queued replies in order**, and is given up for a failed `write` only: if and only if
no `write` of length 0 is accepted. -/
theorem delivered_iff (fd : Nat) (acts : List Act) :
    Always raftNode Delivered (.new fd) acts ↔ StepsOk raftNode WritesSome (.new fd) acts := by
  refine always_iff_stepsOk (I := InStream) (fun s h => delivered_of_inStream h)
    (fun s a s' h ho hs => inStream_step h ho hs) ?_ (inStream_new fd) acts
  intro s a s' h hno hs
  cases a with
  | push => exact absurd trivial hno
  | enter => exact absurd trivial hno
  | leave => exact absurd trivial hno
  | turn r =>
    simp only [raftNode, RaftNode.step] at hs
    split at hs
    · exact not_delivered_turn h hno hs
    · simp at hs

/-- An empty reply is queued and written. -/
theorem emptyReply_not_delivered :
    ¬ Always raftNode Delivered (.new 5) [.push [], .enter, .turn (.accept 0)] := by
  intro h
  have hrun : (raftNode.exec (.new 5) [.push [], .enter, .turn (.accept 0)]).map
      (fun s => (s.connection.fd, s.failed)) = some (none, false) := by decide
  obtain ⟨s, hs, hv⟩ := Option.map_eq_some_iff.mp hrun
  simp only [Prod.mk.injEq] at hv
  have hmark := (h.exec hs).marked (.inl hv.1)
  rw [hv.2] at hmark
  simp at hmark

end BeanRaft.Raft
