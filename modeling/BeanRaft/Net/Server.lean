import BeanRaft.Net.Connect

/-!
# BeanRaft.Net.Server — listening sockets, and a socket that is closed twice

`anetListen` and `anetV6Only` close the socket when they fail.  After `anetListen` the server jumps to `end`, but after
`anetV6Only` it jumps to `error`, which closes the socket once more: by then the number may be a descriptor of another
thread.

* `anetListen_cases`, `anetV6Only_cases`, `serverLoop_cases`: a turn, and the loop over the addresses.
* `v6Refused`: the kernel refuses `IPV6_V6ONLY` to the socket of the server.
* `tcpServer_ends`, `tcpServer_stray`: one listening socket or none, unless the option is refused; then the thread has
  closed a descriptor that is not its own.
* `anetUnixServer_ends`, `anetGenericAccept_ends`: a local server, and a peer that is accepted.
-/

namespace BeanRaft.Net

open Lib

/-- The options of a server's socket, the last first. -/
def serverOpts (af : Int) : List (SockOpt × List Int) :=
  if af = AF_INET6 then [(.SO_REUSEADDR, [1]), (.IPV6_V6ONLY, [1])] else [(.SO_REUSEADDR, [1])]

/-- A blocking socket that listens on one of the addresses that `q` was resolved to. -/
structure Listening (σ0 : Sockets) (q : Query) (af backlog : Int) (k : Sock) : Prop where
  opts : k.opts = serverOpts af
  flags : k.flags = O_RDWR
  bound : ∃ p, Listed σ0 q p ∧ k.domain = p.ai_family ∧ k.bound = some p.ai_addr
  stage : k.stage = .listening backlog

/-- The kernel refuses `IPV6_V6ONLY` to the first socket that is created for the addresses. -/
def v6Refused : List AddrInfo → Sockets → Bool
  | [], _ => false
  | p :: ps, σ =>
    match σ.socket p.ai_family with
    | (σ, none) => v6Refused ps σ
    | (σ, some s) => !(σ.setsockopt s .IPV6_V6ONLY [1]).2

/-- `anetTcp6Server` meets a kernel that refuses `IPV6_V6ONLY`. -/
def Sockets.refusesV6 (σ : Sockets) (q : Query) : Bool :=
  match σ.getaddrinfo q with
  | (_, .error _) => false
  | (σ, .ok servinfo) => v6Refused servinfo σ

/-- The thread holds what it held, but it has closed `s` too, which is not its own. -/
structure Stray (σ0 : Sockets) (n : Int) (s : Nat) (σ : Sockets) : Prop where
  held : σ.kernel.held = σ0.kernel.held
  strays : σ.kernel.strays = s :: σ0.kernel.strays
  lists : σ.lists = σ0.lists + n
  fresh : s ∉ σ0.kernel.fds

section Server

variable {σ0 σ : Sockets} {n : Int} {s : Nat} {k : Sock} {q : Query}

theorem Stray.freeaddrinfo (h : Stray σ0 (n + 1) s σ) : Stray σ0 n s σ.freeaddrinfo := by
  refine ⟨h.held, h.strays, ?_, h.fresh⟩
  have hlists := h.lists
  show σ.lists - 1 = σ0.lists + n
  omega

/-- The socket is closed a second time. -/
theorem Holds.closeTwice (h : Holds σ0 [(s, k)] n σ) : Stray σ0 n s ((σ.close s).close s) := by
  have hfresh : s ∉ σ0.kernel.fds := h.kernel.fresh (s, k) (by simp)
  have hclosed := h.close
  obtain ⟨hheld, hstrays⟩ := Kernel.close_stray hclosed.kernel hfresh
  exact ⟨hheld, hstrays, hclosed.lists, hfresh⟩

theorem anetListen_cases (h : Holds σ0 [(s, k)] n σ) (addr : Addr) (backlog : Int) :
    (∃ σ', σ.anetListen s addr backlog = (σ', true) ∧
      Holds σ0 [(s, (k.bind addr).goto (.listening backlog))] n σ') ∨
    ∃ σ', σ.anetListen s addr backlog = (σ', false) ∧ Holds σ0 [] n σ' ∧ Told σ' := by
  unfold Sockets.anetListen Sockets.bind
  rcases call_cases h (.bind addr) with ⟨σ1, hr, h1⟩ | ⟨σ1, hr, h1⟩
  · simp only [hr]
    unfold Sockets.listen
    rcases call_cases h1 (.goto (.listening backlog)) with ⟨σ2, hr, h2⟩ | ⟨σ2, hr, h2⟩
    · rw [hr]
      exact .inl ⟨σ2, rfl, h2⟩
    · rw [hr]
      exact .inr ⟨_, rfl, (h2.perror _).close, (told_perror _ _).close s⟩
  · rw [hr]
    exact .inr ⟨_, rfl, (h1.perror _).close, (told_perror _ _).close s⟩

/-- The socket is closed when the option is refused. -/
theorem anetV6Only_cases (h : Holds σ0 [(s, k)] n σ) :
    ((σ.setsockopt s .IPV6_V6ONLY [1]).2 = true ∧
      ∃ σ', σ.anetV6Only s = (σ', true) ∧ Holds σ0 [(s, k.setopt .IPV6_V6ONLY [1])] n σ') ∨
    (σ.setsockopt s .IPV6_V6ONLY [1]).2 = false ∧
      ∃ σ', σ.anetV6Only s = (σ'.close s, false) ∧ Holds σ0 [(s, k)] n σ' ∧ Told σ' := by
  unfold Sockets.anetV6Only Sockets.setsockopt
  rcases call_cases h (.setopt .IPV6_V6ONLY [1]) with ⟨σ1, hr, h1⟩ | ⟨σ1, hr, h1⟩
  · rw [hr]
    exact .inl ⟨rfl, σ1, rfl, h1⟩
  · rw [hr]
    exact .inr ⟨rfl, _, rfl, h1.perror _, told_perror _ _⟩

/-- What follows `anetV6Only` in a turn of the loop. -/
theorem listen_ends (h : Holds σ0 [(s, k)] n σ) (p : AddrInfo) (hp : Listed σ0 q p) (af backlog : Int)
    (hdomain : k.domain = p.ai_family) (hflags : k.flags = O_RDWR)
    (hopts : (.SO_REUSEADDR, [1]) :: k.opts = serverOpts af) :
    Ends σ0 n (Listening σ0 q af backlog)
      (match σ.anetSetReuseAddr s with
      | (σ, false) => (σ.close s, none)
      | (σ, true) =>
        match σ.anetListen s p.ai_addr backlog with
        | (σ, false) => (σ, none)
        | (σ, true) => (σ, some s)) := by
  unfold Sockets.anetSetReuseAddr
  rcases option_cases h .SO_REUSEADDR [1] "setsockopt SO_REUSEADDR: %s" with ⟨σ1, hr, h1⟩ | ⟨σ1, hr, h1, ht⟩
  · simp only [hr]
    rcases anetListen_cases h1 p.ai_addr backlog with ⟨σ2, hr, h2⟩ | ⟨σ2, hr, h2, ht⟩
    · rw [hr]
      exact .some h2 ⟨hopts, hflags, ⟨p, hp, hdomain, rfl⟩, rfl⟩
    · rw [hr]
      exact .error h2 ht
  · rw [hr]
    exact .error h1.close (ht.close s)

/-- By induction on the addresses that are left: nothing is held between two turns. -/
theorem serverLoop_cases (af backlog : Int) (ps : List AddrInfo) (h : Holds σ0 [] n σ)
    (hps : ∀ p ∈ ps, Listed σ0 q p) :
    (¬ (af = AF_INET6 ∧ v6Refused ps σ) ∧
      Ends σ0 n (Listening σ0 q af backlog) (Sockets.serverLoop af backlog ps σ)) ∨
    (af = AF_INET6 ∧ v6Refused ps σ) ∧
      ∃ σ' s, Sockets.serverLoop af backlog ps σ = (σ', none) ∧ Told σ' ∧ Stray σ0 n s σ' := by
  induction ps generalizing σ with
  | nil =>
    refine .inl ⟨?_, .error (h.anetSetError _ _) (told_anetSetError _ _ _)⟩
    rintro ⟨-, hrefused⟩
    exact Bool.false_ne_true hrefused
  | cons p ps ih =>
    have hp : Listed σ0 q p := hps p (by simp)
    unfold Sockets.serverLoop v6Refused
    rcases socket_cases h p.ai_family with ⟨σ1, hr, h1⟩ | ⟨σ1, s, hr, h1⟩
    · simp only [hr]
      apply ih h1
      intro q hq
      exact hps q (by simp [hq])
    simp only [hr]
    by_cases haf : af = AF_INET6
    · simp only [if_pos haf]
      rcases anetV6Only_cases h1 with ⟨hset, σ2, hr, h2⟩ | ⟨hset, σ2, hr, h2, ht⟩
      · rw [hr, hset]
        refine .inl ⟨by simp, ?_⟩
        apply listen_ends h2 p hp af backlog rfl rfl
        unfold serverOpts
        rw [if_pos haf]
        rfl
      · rw [hr, hset]
        exact .inr ⟨⟨haf, rfl⟩, _, s, rfl, (ht.close s).close s, h2.closeTwice⟩
    · simp only [if_neg haf]
      refine .inl ⟨fun h => haf h.1, ?_⟩
      apply listen_ends h1 p hp af backlog rfl rfl
      unfold serverOpts
      rw [if_neg haf]
      rfl

theorem tcpServer_cases (σ : Sockets) (port : Int) (bindaddr : Option (List UInt8)) (af backlog : Int) :
    (¬ (af = AF_INET6 ∧ σ.refusesV6 (serverQuery port bindaddr af)) ∧
      Ends σ 0 (Listening σ (serverQuery port bindaddr af) af backlog) (σ.tcpServer port bindaddr af backlog)) ∨
    (af = AF_INET6 ∧ σ.refusesV6 (serverQuery port bindaddr af)) ∧
      ∃ σ' s, σ.tcpServer port bindaddr af backlog = (σ', none) ∧ Told σ' ∧ Stray σ 0 s σ' := by
  unfold Sockets.tcpServer Sockets.refusesV6
  rcases getaddrinfo_cases (.refl (σ := σ)) (serverQuery port bindaddr af) with ⟨σ1, rv, hr, h1⟩ | ⟨σ1, infos, hr, -, hinfos, h1⟩
  · rw [hr]
    exact .inl ⟨by simp, .error (h1.anetSetError _ _) (told_anetSetError _ _ _)⟩
  simp only [hr]
  rcases serverLoop_cases af backlog infos h1 hinfos with ⟨hno, hends⟩ | ⟨hyes, σ2, s, hr, ht, h2⟩
  · refine .inl ⟨hno, ?_⟩
    rcases hends with ⟨σ2, hr, h2, ht⟩ | ⟨σ2, s, k, hr, h2, hk⟩
    · rw [hr]
      exact .error h2.freeaddrinfo ht.freeaddrinfo
    · rw [hr]
      exact .some h2.freeaddrinfo hk
  · rw [hr]
    exact .inr ⟨hyes, _, s, rfl, ht.freeaddrinfo, h2.freeaddrinfo⟩

/-- A local server, which listens on the first bytes of `path`. -/
def UnixListening (path : Addr) (backlog : Int) (k : Sock) : Prop :=
  k = ⟨AF_LOCAL, O_RDWR, [(.SO_REUSEADDR, [1])], some (path.take 107), .listening backlog⟩

theorem anetUnixServer_ends (σ : Sockets) (path : Addr) (perm : Nat) (backlog : Int) :
    Ends σ 0 (UnixListening path backlog) (σ.anetUnixServer path perm backlog) := by
  unfold Sockets.anetUnixServer
  rcases anetCreateSocket_cases (.refl (σ := σ)) AF_LOCAL with ⟨σ1, hr, h1, ht⟩ | ⟨σ1, s, hr, h1⟩
  · rw [hr]
    exact .error h1 ht
  simp only [hr]
  rcases anetListen_cases h1 (path.take 107) backlog with ⟨σ2, hr, h2⟩ | ⟨σ2, hr, h2, ht⟩
  · rw [hr]
    refine .some ?_ rfl
    split_ifs
    · exact ⟨h2.kernel.next, h2.lists, h2.errbuf⟩
    · exact h2
  · rw [hr]
    exact .error h2 ht

/-! ## Accepting -/

/-- A call takes an answer, and fails with `EIO` when there is none. -/
theorem accept_cases (h : Holds σ0 [] n σ) (s : Nat) :
    (∃ σ', σ.accept s = (σ', none) ∧ Holds σ0 [] n σ' ∧
      (σ'.kernel.errno = EINTR → σ'.kernel.answers.length < σ.kernel.answers.length)) ∨
    ∃ σ' fd k, σ.accept s = (σ', some fd) ∧ Holds σ0 [(fd, k)] n σ' ∧ k.stage = .accepted := by
  unfold Sockets.accept
  dsimp only
  generalize hattr : (Sock.new (((σ.kernel.held.lookup s).map Sock.domain).getD 0)).goto .accepted = attr
  have hstage : attr.stage = .accepted := by
    rw [← hattr]
    rfl
  rcases Kernel.openFd_cases h.kernel attr with ⟨hr, hk⟩ | ⟨fd, hr, hk⟩
  · rw [hr]
    exact .inl ⟨_, rfl, ⟨hk, h.lists, h.errbuf⟩, Kernel.openFd_answers (by decide)⟩
  · rw [hr]
    exact .inr ⟨_, fd, attr, rfl, ⟨hk, h.lists, h.errbuf⟩, hstage⟩

/-- The answers that are left bound the turns. -/
theorem acceptLoop_ends (fuel : Nat) (h : Holds σ0 [] n σ) (hfuel : σ.kernel.answers.length < fuel) :
    Ends σ0 n (fun k => k.stage = .accepted) (Sockets.acceptLoop s fuel σ) := by
  induction fuel generalizing σ with
  | zero => omega
  | succ fuel ih =>
    unfold Sockets.acceptLoop
    rcases accept_cases h s with ⟨σ1, hr, h1, hanswers⟩ | ⟨σ1, fd, k, hr, h1, hk⟩
    · simp only [hr]
      split_ifs with hintr
      · have hless := hanswers hintr
        exact ih h1 (by omega)
      · exact .error (h1.perror _) (told_perror _ _)
    · rw [hr]
      exact .some h1 hk

theorem anetGenericAccept_ends (σ : Sockets) (s : Nat) :
    Ends σ 0 (fun k => k.stage = .accepted) (σ.anetGenericAccept s) := acceptLoop_ends _ .refl (Nat.lt_succ_self _)

end Server

end BeanRaft.Net
