import Mathlib.Data.List.Basic
import BeanRaft.Lib.Lts

/-!
# BeanRaft.Raft.Vote — one vote per term

`raft::processRequestVote` of `connection.cpp` over any sequence of requests.

* The handler gets the reply from its caller: a field that it does not set keeps what the caller left there.
* `Voter`: the node, and (history) every answer with the node's term at that moment.
* `OneVote`: what a voter owes to an election.  `oneVote_iff`: the handler grants and forgets, so this is kept exactly
  when the requests it grants all come from one candidate, in the term that the node has from the start, with that
  term in the reply already.
-/

namespace BeanRaft.Raft

open Lts

structure VoteRequest where
  term : UInt64
  candidateId : UInt64
  lastLogIndex : UInt64
  lastLogTerm : UInt64
  deriving DecidableEq, Repr

structure VoteReply where
  term : UInt64
  voteGranted : Bool
  deriving DecidableEq, Repr

/-- The fields of the class `raft` for the term and the vote; it declares both twice (lines 321, 322, 336, 337). -/
structure RaftState where
  currentTerm : UInt64
  voteFor : UInt64
  term : UInt64
  votefor : UInt64
  deriving DecidableEq, Repr

/-- `processRequestVote` (line 273): the node and the reply after the call.  The branch on `lastLogIndex` is empty. -/
def RaftState.processRequestVote (n : RaftState) (req : VoteRequest) (reply : VoteReply) : RaftState × VoteReply :=
  if req.term < n.term then (n, { reply with voteGranted := false, term := n.term })
  else (n, { reply with voteGranted := true })

/-! ## The voter -/

/-- A request with its reply, and the node's term when the handler returned. -/
structure Answer where
  req : VoteRequest
  reply : VoteReply
  term : UInt64
  deriving DecidableEq, Repr

structure Voter where
  node : RaftState
  answers : List Answer
  deriving DecidableEq, Repr

namespace Voter

variable (s : Voter)

/-- The node handles a request; `reply` is the caller's reply before the call. -/
def answer (req : VoteRequest) (reply : VoteReply) : Voter :=
  let (node, reply) := s.node.processRequestVote req reply
  ⟨node, s.answers ++ [⟨req, reply, node.term⟩]⟩

/-- The requests that were granted, in order. -/
def granted : List VoteRequest := (s.answers.filter fun a => a.reply.voteGranted).map Answer.req

/-- A node before its first request. -/
def start (n : RaftState) : Voter := ⟨n, []⟩

end Voter

/-- The voter as a transition system; an action is a request and the reply before the call. -/
def voter : System Voter (VoteRequest × VoteReply) where
  init s := ∃ n, s = .start n
  step s m := some (s.answer m.1 m.2)

/-! ## The property -/

/-- What a voter owes to an election. -/
structure OneVote (s : Voter) : Prop where
  /-- Two granted requests of one term name the same candidate. -/
  unique : ∀ a ∈ s.granted, ∀ b ∈ s.granted, a.term = b.term → a.candidateId = b.candidateId
  ordered : s.granted.Pairwise fun a b => a.term ≤ b.term
  /-- Every reply carries the term that the node had then. -/
  told : ∀ a ∈ s.answers, a.reply.term = a.term
  grows : (s.answers.map Answer.term ++ [s.node.term]).Pairwise (· ≤ ·)
  /-- The node is in the term of every granted request, or a later one. -/
  reached : ∀ a ∈ s.granted, a.term ≤ s.node.term

section Steps

variable {s : Voter} {n : RaftState} {req : VoteRequest} {reply : VoteReply}

/-- A request of an earlier term is rejected, with the node's term in the reply. -/
theorem answer_rejects (h : req.term < s.node.term) :
    s.answer req reply = ⟨s.node, s.answers ++ [⟨req, ⟨s.node.term, false⟩, s.node.term⟩]⟩ := by
  unfold Voter.answer RaftState.processRequestVote
  rw [if_pos h]

/-- Any other request is granted, with the term that the caller left in the reply. -/
theorem answer_grants (h : ¬ req.term < s.node.term) :
    s.answer req reply = ⟨s.node, s.answers ++ [⟨req, ⟨reply.term, true⟩, s.node.term⟩]⟩ := by
  unfold Voter.answer RaftState.processRequestVote
  rw [if_neg h]

/-- The handler records nothing. -/
theorem answer_node : (s.answer req reply).node = s.node := by
  by_cases h : req.term < s.node.term
  · rw [answer_rejects h]
  · rw [answer_grants h]

theorem granted_rejects (h : req.term < s.node.term) : (s.answer req reply).granted = s.granted := by
  rw [answer_rejects h]
  simp [Voter.granted]

theorem granted_grants (h : ¬ req.term < s.node.term) : (s.answer req reply).granted = s.granted ++ [req] := by
  rw [answer_grants h]
  simp [Voter.granted]

/-- What holds of all granted requests after an answer. -/
theorem forall_granted_answer {p : VoteRequest → Prop} :
    (∀ a ∈ (s.answer req reply).granted, p a) ↔ (∀ a ∈ s.granted, p a) ∧ (req.term < s.node.term ∨ p req) := by
  by_cases h : req.term < s.node.term
  · rw [granted_rejects h]
    exact ⟨fun hp => ⟨hp, .inl h⟩, And.left⟩
  · rw [granted_grants h, List.forall_mem_append, List.forall_mem_singleton]
    exact and_congr_right fun _ => (or_iff_right h).symm

end Steps

/-! ## The condition -/

section Condition

variable {s : Voter} {m : VoteRequest × VoteReply}

/-- The request is rejected, or it is in the node's term, as the reply already says, and from the candidate that was
granted before. -/
def GrantOk (s : Voter) (m : VoteRequest × VoteReply) : Prop :=
  m.1.term < s.node.term ∨
    m.1.term = s.node.term ∧ m.2.term = s.node.term ∧ ∀ a ∈ s.granted, a.candidateId = m.1.candidateId

/-- Every answer was given in the node's term, and every grant is for one candidate in this term. -/
structure Settled (s : Voter) : Prop where
  answered : ∀ a ∈ s.answers, a.term = s.node.term ∧ a.reply.term = s.node.term
  granted : ∀ a ∈ s.granted, a.term = s.node.term
  same : ∀ a ∈ s.granted, ∀ b ∈ s.granted, a.candidateId = b.candidateId

theorem oneVote_of_settled (h : Settled s) : OneVote s := by
  have hterms : ∀ t ∈ s.answers.map Answer.term ++ [s.node.term], t = s.node.term := by
    intro t ht
    rcases List.mem_append.mp ht with ht | ht
    · obtain ⟨a, ha, rfl⟩ := List.mem_map.mp ht
      exact (h.answered a ha).1
    · exact List.mem_singleton.mp ht
  refine ⟨fun a ha b hb _ => h.same a ha b hb, ?_, fun a ha => ?_, ?_, fun a ha => ?_⟩
  · refine List.pairwise_of_forall_mem_list fun a ha b hb => ?_
    rw [h.granted a ha, h.granted b hb]
    exact UInt64.le_refl _
  · rw [(h.answered a ha).1, (h.answered a ha).2]
  · refine List.pairwise_of_forall_mem_list fun t ht u hu => ?_
    rw [hterms t ht, hterms u hu]
    exact UInt64.le_refl _
  · rw [h.granted a ha]
    exact UInt64.le_refl _

theorem settled_step (h : Settled s) (hok : GrantOk s m) : Settled (s.answer m.1 m.2) := by
  refine ⟨?_, ?_, ?_⟩
  · by_cases hlt : m.1.term < s.node.term
    · rw [answer_rejects hlt]
      exact List.forall_mem_append.mpr ⟨h.answered, List.forall_mem_singleton.mpr ⟨rfl, rfl⟩⟩
    · obtain ⟨-, hreply, -⟩ := hok.resolve_left hlt
      rw [answer_grants hlt]
      exact List.forall_mem_append.mpr ⟨h.answered, List.forall_mem_singleton.mpr ⟨rfl, hreply⟩⟩
  · rw [answer_node]
    exact forall_granted_answer.mpr ⟨h.granted, hok.imp_right And.left⟩
  · -- a request that is granted names the candidate of all that were granted before
    have hsame : ∀ a ∈ s.granted, ∀ b ∈ (s.answer m.1 m.2).granted, a.candidateId = b.candidateId := by
      intro a ha
      refine forall_granted_answer.mpr ⟨h.same a ha, ?_⟩
      exact hok.imp_right fun hgrant => hgrant.2.2 a ha
    refine forall_granted_answer.mpr ⟨hsame, ?_⟩
    refine hok.imp_right fun hgrant => forall_granted_answer.mpr ⟨?_, .inr rfl⟩
    exact fun a ha => (hgrant.2.2 a ha).symm

/-- A grant that does not meet the condition breaks the property. -/
theorem not_oneVote_step (h : Settled s) (hno : ¬ GrantOk s m) : ¬ OneVote (s.answer m.1 m.2) := by
  intro hv
  have hlt : ¬ m.1.term < s.node.term := fun hlt => hno (.inl hlt)
  have hmem : m.1 ∈ (s.answer m.1 m.2).granted := by
    rw [granted_grants hlt]
    exact List.mem_append_right _ (List.mem_singleton.mpr rfl)
  have hle : m.1.term ≤ s.node.term := by
    have hreached := hv.reached m.1 hmem
    rwa [answer_node] at hreached
  have hterm : m.1.term = s.node.term := UInt64.le_antisymm hle (UInt64.not_lt.mp hlt)
  have hreply : m.2.term = s.node.term := by
    have hin : (⟨m.1, ⟨m.2.term, true⟩, s.node.term⟩ : Answer) ∈ (s.answer m.1 m.2).answers := by
      rw [answer_grants hlt]
      exact List.mem_append_right _ (List.mem_singleton.mpr rfl)
    exact hv.told _ hin
  refine hno (.inr ⟨hterm, hreply, fun a ha => ?_⟩)
  have ha' : a ∈ (s.answer m.1 m.2).granted := by
    rw [granted_grants hlt]
    exact List.mem_append_left _ ha
  exact hv.unique a ha' m.1 hmem (by rw [h.granted a ha, hterm])

/-- The condition on the steps of a run as one on its requests. -/
theorem stepsOk_iff (h : Settled s) (msgs : List (VoteRequest × VoteReply)) :
    StepsOk voter GrantOk s msgs ↔ ∃ c, (∀ a ∈ s.granted, a.candidateId = c) ∧ ∀ m ∈ msgs, m.1.term < s.node.term ∨
      m.1.term = s.node.term ∧ m.2.term = s.node.term ∧ m.1.candidateId = c := by
  induction msgs generalizing s with
  | nil =>
    refine ⟨fun _ => ?_, fun _ => trivial⟩
    cases hg : s.granted with
    | nil => exact ⟨0, fun a ha => absurd ha List.not_mem_nil, fun m hm => absurd hm List.not_mem_nil⟩
    | cons b l =>
      refine ⟨b.candidateId, fun a ha => ?_, fun m hm => absurd hm List.not_mem_nil⟩
      exact h.same a (by rw [hg]; exact ha) b (by rw [hg]; exact List.mem_cons_self)
  | cons m msgs ih =>
    constructor
    · intro hs
      obtain ⟨hok, hrest⟩ := hs _ rfl
      obtain ⟨c, hc, hmsgs⟩ := (ih (settled_step h hok)).mp hrest
      obtain ⟨hbefore, hnow⟩ := forall_granted_answer.mp hc
      rw [answer_node] at hmsgs
      refine ⟨c, hbefore, List.forall_mem_cons.mpr ⟨?_, hmsgs⟩⟩
      rcases hok with hlt | ⟨hterm, hreply, -⟩
      · exact .inl hlt
      · exact hnow.imp_right fun hcand => ⟨hterm, hreply, hcand⟩
    · rintro ⟨c, hc, hall⟩ s' hs'
      obtain rfl := Option.some.inj hs'
      obtain ⟨hm, hmsgs⟩ := List.forall_mem_cons.mp hall
      have hok : GrantOk s m := by
        rcases hm with hlt | ⟨hterm, hreply, hcand⟩
        · exact .inl hlt
        · exact .inr ⟨hterm, hreply, fun a ha => (hc a ha).trans hcand.symm⟩
      refine ⟨hok, (ih (settled_step h hok)).mpr ⟨c, ?_, ?_⟩⟩
      · exact forall_granted_answer.mpr ⟨hc, hm.imp_right fun hgrant => hgrant.2.2⟩
      · rw [answer_node]
        exact hmsgs

end Condition

theorem settled_start (n : RaftState) : Settled (.start n) :=
  ⟨fun _ ha => absurd ha List.not_mem_nil, fun _ ha => absurd ha List.not_mem_nil,
    fun _ ha => absurd ha List.not_mem_nil⟩

/-- **When a node keeps to one vote a term**: if and only if every request that is not rejected is in the node's term
from the start, comes from one and the same candidate, and finds this term in its reply. -/
theorem oneVote_iff (n : RaftState) (msgs : List (VoteRequest × VoteReply)) :
    Always voter OneVote (.start n) msgs ↔ ∃ c, ∀ m ∈ msgs, m.1.term < n.term ∨
      m.1.term = n.term ∧ m.2.term = n.term ∧ m.1.candidateId = c := by
  have hexact : Always voter OneVote (.start n) msgs ↔ StepsOk voter GrantOk (.start n) msgs := by
    refine always_iff_stepsOk (I := Settled) (fun s h => oneVote_of_settled h) ?_ ?_ (settled_start n) msgs
    · rintro s m s' h hok hs
      obtain rfl := Option.some.inj hs
      exact settled_step h hok
    · rintro s m s' h hno hs
      obtain rfl := Option.some.inj hs
      exact not_oneVote_step h hno
  rw [hexact, stepsOk_iff (settled_start n)]
  exact exists_congr fun c => ⟨And.right, fun h => ⟨fun _ ha => absurd ha List.not_mem_nil, h⟩⟩

/-- Two candidates ask for the vote of term 1. -/
def twoCandidates : List (VoteRequest × VoteReply) :=
  [(⟨1, 1, 0, 0⟩, ⟨1, false⟩), (⟨1, 2, 0, 0⟩, ⟨1, false⟩)]

theorem twoCandidates_granted : ¬ Always voter OneVote (.start ⟨1, 0, 1, 0⟩) twoCandidates := by
  intro h
  have hrun : voter.exec (.start ⟨1, 0, 1, 0⟩) twoCandidates =
      some ⟨⟨1, 0, 1, 0⟩, [⟨⟨1, 1, 0, 0⟩, ⟨1, true⟩, 1⟩, ⟨⟨1, 2, 0, 0⟩, ⟨1, true⟩, 1⟩]⟩ := by decide
  have hu := (h.exec hrun).unique ⟨1, 1, 0, 0⟩ (by decide) ⟨1, 2, 0, 0⟩ (by decide) rfl
  exact absurd hu (by decide)

end BeanRaft.Raft
