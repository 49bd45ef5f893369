import BeanRaft.Net.Anet

/-!
# BeanRaft.Net.Connect — a connect leaves one socket, or none

`anetTcpGenericConnect` tries the addresses of the peer in turn, may bind each socket to an address of the source first,
and with best effort binding starts again without a source address.  Whatever the kernel answers, and whatever the other
threads open and close meanwhile:

* `Ends`: what a function leaves behind when it returns.  `bindSource_cases`, `tryConnect_cases`: a turn of the loop.
* `connectLoop_ends`, `connectWith_ends`: the loop, and the function with the call of itself at its end.
* `anetTcpGenericConnect_ends`: for `ANET_ERR` every socket is closed again, every list is freed, and there is an error
  in the buffer; a descriptor is that of one new socket, as it was asked for (`Connected`).
* `anetUnixGenericConnect_ends`: the same of a local socket.
-/

namespace BeanRaft.Net

open Lib

/-- A function returns `ANET_ERR` with an error and holds nothing, or a socket that `P` describes. -/
def Ends (σ0 : Sockets) (n : Int) (P : Sock → Prop) (r : Sockets × Option Nat) : Prop :=
  (∃ σ, r = (σ, none) ∧ Holds σ0 [] n σ ∧ Told σ) ∨ ∃ σ s k, r = (σ, some s) ∧ Holds σ0 [(s, k)] n σ ∧ P k

/-- The status flags of a new socket. -/
def statusFlags (nonblock : Bool) : UInt32 := if nonblock then O_RDWR ||| O_NONBLOCK else O_RDWR

/-- The socket is bound to an address that the source was resolved to, or not bound when there is no source. -/
def BoundTo (σ0 : Sockets) (k : Sock) : Option (List UInt8) → Prop
  | none => k.bound = none
  | some source => ∃ b, Listed σ0 (sourceQuery source) b ∧ k.bound = some b.ai_addr

/-- A socket that is connected to an address that the peer was resolved to, or is connecting to it when it does not
block; it is bound to one of the source when there is one. -/
structure Connected (σ0 : Sockets) (addr : List UInt8) (port : Int) (source : Option (List UInt8)) (nonblock : Bool)
    (k : Sock) : Prop where
  opts : k.opts = [(.SO_REUSEADDR, [1])]
  flags : k.flags = statusFlags nonblock
  bound : BoundTo σ0 k source
  stage : ∃ p, Listed σ0 (peerQuery addr port) p ∧ k.domain = p.ai_family ∧
    (k.stage = .connected p.ai_addr ∨ nonblock = true ∧ k.stage = .connecting p.ai_addr)

section Connect

variable {σ0 σ : Sockets} {l : List (Nat × Sock)} {n : Int} {s : Nat} {k : Sock} {P Q : Sock → Prop}
  {r : Sockets × Option Nat} {addr : List UInt8} {port : Int}

theorem Ends.error (h : Holds σ0 [] n σ) (ht : Told σ) : Ends σ0 n P (σ, none) := .inl ⟨σ, rfl, h, ht⟩

theorem Ends.some (h : Holds σ0 [(s, k)] n σ) (hP : P k) : Ends σ0 n P (σ, some s) := .inr ⟨σ, s, k, rfl, h, hP⟩

theorem Ends.imp (h : Ends σ0 n P r) (hPQ : ∀ k, P k → Q k) : Ends σ0 n Q r := by
  rcases h with h | ⟨σ, s, k, hr, hk, hP⟩
  · exact .inl h
  · exact .inr ⟨σ, s, k, hr, hk, hPQ k hP⟩

/-- `if (flags & ANET_CONNECT_NONBLOCK) …` -/
theorem ifNonBlock_cases (h : Holds σ0 [(s, k)] n σ) (nonblock : Bool) :
    (∃ σ', (if nonblock then σ.anetNonBlock s else (σ, true)) = (σ', true) ∧
      Holds σ0 [(s, if nonblock then k.block true else k)] n σ') ∨
    ∃ σ', (if nonblock then σ.anetNonBlock s else (σ, true)) = (σ', false) ∧ Holds σ0 [(s, k)] n σ' ∧ Told σ' := by
  cases nonblock with
  | false => exact .inl ⟨σ, rfl, h⟩
  | true => exact setBlock_cases h true

/-- A new socket with `SO_REUSEADDR`, when its status flags are set as they were asked for. -/
theorem newSock_eq (domain : Int) (nonblock : Bool) :
    (if nonblock then ((Sock.new domain).setopt .SO_REUSEADDR [1]).block true
      else (Sock.new domain).setopt .SO_REUSEADDR [1]) =
    ⟨domain, statusFlags nonblock, [(.SO_REUSEADDR, [1])], none, .idle⟩ := by
  unfold statusFlags
  split_ifs <;> rfl

/-- Of a socket that is bound to `b`, `bind` sees only the address. -/
theorem bindAny_cases (bs : List AddrInfo) (h : Holds σ0 [(s, k)] n σ) :
    (∃ σ' b, Sockets.bindAny s bs σ = (σ', true) ∧ b ∈ bs ∧ Holds σ0 [(s, k.bind b.ai_addr)] n σ') ∨
    ∃ σ', Sockets.bindAny s bs σ = (σ', false) ∧ Holds σ0 [(s, k)] n σ' := by
  induction bs generalizing σ with
  | nil => exact .inr ⟨σ, rfl, h⟩
  | cons b bs ih =>
    unfold Sockets.bindAny Sockets.bind
    rcases call_cases h (.bind b.ai_addr) with ⟨σ1, hr, h1⟩ | ⟨σ1, hr, h1⟩
    · rw [hr]
      exact .inl ⟨σ1, b, rfl, by simp, h1⟩
    · rw [hr]
      rcases ih h1 with ⟨σ2, b', hr, hb, h2⟩ | ⟨σ2, hr, h2⟩
      · exact .inl ⟨σ2, b', hr, by simp [hb], h2⟩
      · exact .inr ⟨σ2, hr, h2⟩

theorem bindSource_cases (h : Holds σ0 [(s, k)] n σ) (hk : k.bound = none) (source : Option (List UInt8)) :
    (∃ σ' k', σ.bindSource s source = (σ', true) ∧ Holds σ0 [(s, k')] n σ' ∧ k' = { k with bound := k'.bound } ∧
      BoundTo σ0 k' source) ∨
    ∃ σ', σ.bindSource s source = (σ', false) ∧ Holds σ0 [(s, k)] n σ' ∧ Told σ' := by
  cases source with
  | none => exact .inl ⟨σ, k, rfl, h, rfl, hk⟩
  | some source =>
    unfold Sockets.bindSource
    dsimp only
    rcases getaddrinfo_cases h (sourceQuery source) with ⟨σ1, rv, hr, h1⟩ | ⟨σ1, infos, hr, -, hinfos, h1⟩
    · rw [hr]
      exact .inr ⟨_, rfl, h1.anetSetError _ _, told_anetSetError _ _ _⟩
    · simp only [hr]
      rcases bindAny_cases infos h1 with ⟨σ2, b, hr, hb, h2⟩ | ⟨σ2, hr, h2⟩
      · rw [hr]
        exact .inl ⟨_, k.bind b.ai_addr, rfl, h2.freeaddrinfo, rfl, b, hinfos b hb, rfl⟩
      · rw [hr]
        exact .inr ⟨_, rfl, h2.freeaddrinfo.perror _, told_perror _ _⟩

/-- A turn goes on with nothing held, or jumps to `error` or to `end` with the socket. -/
theorem tryConnect_cases (h : Holds σ0 [] n σ) (source : Option (List UInt8)) (flags : ConnectFlags) (p : AddrInfo)
    (hp : Listed σ0 (peerQuery addr port) p) :
    (∃ σ', σ.tryConnect source flags p = (σ', .again) ∧ Holds σ0 [] n σ') ∨
    (∃ σ' s k, σ.tryConnect source flags p = (σ', .error s) ∧ Holds σ0 [(s, k)] n σ' ∧ Told σ') ∨
    ∃ σ' s k, σ.tryConnect source flags p = (σ', .done s) ∧ Holds σ0 [(s, k)] n σ' ∧
      Connected σ0 addr port source flags.nonblock k := by
  unfold Sockets.tryConnect Sockets.anetSetReuseAddr
  rcases socket_cases h p.ai_family with ⟨σ1, hr, h1⟩ | ⟨σ1, s, hr, h1⟩
  · rw [hr]
    exact .inl ⟨σ1, rfl, h1⟩
  simp only [hr]
  rcases option_cases h1 .SO_REUSEADDR [1] "setsockopt SO_REUSEADDR: %s" with ⟨σ2, hr, h2⟩ | ⟨σ2, hr, h2, ht⟩
  swap
  · rw [hr]
    exact .inr (.inl ⟨σ2, s, _, rfl, h2, ht⟩)
  simp only [hr]
  rcases ifNonBlock_cases h2 flags.nonblock with ⟨σ3, hr, h3⟩ | ⟨σ3, hr, h3, ht⟩
  swap
  · rw [hr]
    exact .inr (.inl ⟨σ3, s, _, rfl, h3, ht⟩)
  simp only [hr]
  rw [newSock_eq] at h3
  rcases bindSource_cases h3 rfl source with ⟨σ4, k4, hr, h4, hk4, hbound⟩ | ⟨σ4, hr, h4, ht⟩
  swap
  · rw [hr]
    exact .inr (.inl ⟨σ4, s, _, rfl, h4, ht⟩)
  simp only [hr]
  rcases connect_cases h4 p.ai_addr with ⟨σ5, hr, h5⟩ | ⟨σ5, hr, h5⟩
  · rw [hr]
    refine .inr (.inr ⟨σ5, s, _, rfl, h5, ?_, ?_, hbound, p, hp, ?_, .inl rfl⟩)
    · rw [hk4]
      rfl
    · rw [hk4]
      rfl
    · rw [hk4]
      rfl
  · simp only [hr]
    by_cases hgoes : σ5.kernel.errno = EINPROGRESS ∧ flags.nonblock
    · rw [if_pos hgoes]
      rw [if_pos hgoes.1] at h5
      refine .inr (.inr ⟨σ5, s, _, rfl, h5, ?_, ?_, hbound, p, hp, ?_, .inr ⟨hgoes.2, rfl⟩⟩)
      · rw [hk4]
        rfl
      · rw [hk4]
        rfl
      · rw [hk4]
        rfl
    · rw [if_neg hgoes]
      exact .inl ⟨_, rfl, h5.close⟩

/-- By induction on the addresses that are left: nothing is held between two turns. -/
theorem connectLoop_ends (source : Option (List UInt8)) (flags : ConnectFlags) (ps : List AddrInfo)
    (h : Holds σ0 [] n σ) (hps : ∀ p ∈ ps, Listed σ0 (peerQuery addr port) p) :
    Ends σ0 n (Connected σ0 addr port source flags.nonblock) (Sockets.connectLoop source flags ps σ) := by
  induction ps generalizing σ with
  | nil => exact .error (h.perror _) (told_perror _ _)
  | cons p ps ih =>
    unfold Sockets.connectLoop
    have hp : Listed σ0 (peerQuery addr port) p := hps p (by simp)
    rcases tryConnect_cases h source flags p hp with ⟨σ1, hr, h1⟩ | ⟨σ1, s, k, hr, h1, ht⟩ | ⟨σ1, s, k, hr, h1, hk⟩
    · rw [hr]
      apply ih h1
      intro q hq
      exact hps q (by simp [hq])
    · rw [hr]
      exact .error h1.close (ht.close s)
    · rw [hr]
      exact .some h1 hk

/-- The list is freed on every way out; `again` starts with nothing. -/
theorem connectWith_ends (h : Holds σ0 [] 0 σ) (source : Option (List UInt8)) (flags : ConnectFlags)
    {again : Sockets → Sockets × Option Nat}
    (hagain : source ≠ none → flags.be_binding = true → ∀ σ', Holds σ0 [] 0 σ' → Ends σ0 0 P (again σ'))
    (hP : ∀ k, Connected σ0 addr port source flags.nonblock k → P k) :
    Ends σ0 0 P (σ.connectWith again addr port source flags) := by
  unfold Sockets.connectWith
  rcases getaddrinfo_cases h (peerQuery addr port) with ⟨σ1, rv, hr, h1⟩ | ⟨σ1, infos, hr, -, hinfos, h1⟩
  · rw [hr]
    exact .error (h1.anetSetError _ _) (told_anetSetError _ _ _)
  simp only [hr]
  rcases connectLoop_ends source flags infos h1 hinfos with ⟨σ2, hr, h2, ht⟩ | ⟨σ2, s, k, hr, h2, hk⟩
  · simp only [hr]
    by_cases hbe : source.isSome ∧ flags.be_binding
    · rw [if_pos hbe]
      exact hagain (Option.isSome_iff_ne_none.mp hbe.1) hbe.2 _ h2.freeaddrinfo
    · rw [if_neg hbe]
      exact .error h2.freeaddrinfo ht.freeaddrinfo
  · rw [hr]
    exact .some h2.freeaddrinfo (hP k hk)

/-- The second try has no source address, so it is the last one. -/
theorem tcpGenericConnect_ends (σ : Sockets) (addr : List UInt8) (port : Int) (source : Option (List UInt8))
    (flags : ConnectFlags) (hfirst : ∀ k, Connected σ addr port source flags.nonblock k → P k)
    (hsecond : source ≠ none → flags.be_binding = true → ∀ k, Connected σ addr port none flags.nonblock k → P k) :
    Ends σ 0 P (σ.anetTcpGenericConnect addr port source flags) := by
  unfold Sockets.anetTcpGenericConnect
  refine connectWith_ends .refl _ _ ?_ hfirst
  intro hsource hbe σ' h'
  refine connectWith_ends h' _ _ ?_ (hsecond hsource hbe)
  intro hnone
  exact absurd rfl hnone

/-- **A connect ends with one socket, as it was asked for, or with none and an error**, whatever the kernel answers. -/
theorem anetTcpGenericConnect_ends (σ : Sockets) (addr : List UInt8) (port : Int) (source : Option (List UInt8))
    (flags : ConnectFlags) :
    Ends σ 0 (fun k => Connected σ addr port source flags.nonblock k ∨
      source ≠ none ∧ flags.be_binding = true ∧ Connected σ addr port none flags.nonblock k)
      (σ.anetTcpGenericConnect addr port source flags) :=
  tcpGenericConnect_ends σ addr port source flags (fun _ hk => .inl hk) fun hsource hbe _ hk => .inr ⟨hsource, hbe, hk⟩

/-- A local socket has `SO_REUSEADDR` like the others. -/
theorem anetCreateSocket_cases (h : Holds σ0 [] n σ) (domain : Int) :
    (∃ σ', σ.anetCreateSocket domain = (σ', none) ∧ Holds σ0 [] n σ' ∧ Told σ') ∨
    ∃ σ' s, σ.anetCreateSocket domain = (σ', some s) ∧
      Holds σ0 [(s, (Sock.new domain).setopt .SO_REUSEADDR [1])] n σ' := by
  unfold Sockets.anetCreateSocket Sockets.anetSetReuseAddr
  rcases socket_cases h domain with ⟨σ1, hr, h1⟩ | ⟨σ1, s, hr, h1⟩
  · rw [hr]
    exact .inl ⟨_, rfl, h1.perror _, told_perror _ _⟩
  simp only [hr]
  rcases option_cases h1 .SO_REUSEADDR [1] "setsockopt SO_REUSEADDR: %s" with ⟨σ2, hr, h2⟩ | ⟨σ2, hr, h2, ht⟩
  · rw [hr]
    exact .inr ⟨σ2, s, rfl, h2⟩
  · rw [hr]
    exact .inl ⟨_, rfl, h2.close, ht.close s⟩

/-- A local socket that is connected to the first bytes of `path`, or is connecting. -/
def UnixConnected (path : Addr) (nonblock : Bool) (k : Sock) : Prop :=
  k.domain = AF_LOCAL ∧ k.opts = [(.SO_REUSEADDR, [1])] ∧ k.flags = statusFlags nonblock ∧ k.bound = none ∧
    (k.stage = .connected (path.take 107) ∨ nonblock = true ∧ k.stage = .connecting (path.take 107))

theorem anetUnixGenericConnect_ends (σ : Sockets) (path : Addr) (nonblock : Bool) :
    Ends σ 0 (UnixConnected path nonblock) (σ.anetUnixGenericConnect path nonblock) := by
  unfold Sockets.anetUnixGenericConnect
  rcases anetCreateSocket_cases (.refl (σ := σ)) AF_LOCAL with ⟨σ1, hr, h1, ht⟩ | ⟨σ1, s, hr, h1⟩
  · rw [hr]
    exact .error h1 ht
  simp only [hr]
  rcases ifNonBlock_cases h1 nonblock with ⟨σ2, hr, h2⟩ | ⟨σ2, hr, h2, ht⟩
  swap
  · rw [hr]
    exact .error h2.close (ht.close s)
  simp only [hr]
  rw [newSock_eq] at h2
  rcases connect_cases h2 (path.take 107) with ⟨σ3, hr, h3⟩ | ⟨σ3, hr, h3⟩
  · rw [hr]
    exact .some h3 ⟨rfl, rfl, rfl, rfl, .inl rfl⟩
  · simp only [hr]
    by_cases hgoes : σ3.kernel.errno = EINPROGRESS ∧ nonblock
    · rw [if_pos hgoes]
      rw [if_pos hgoes.1] at h3
      exact .some h3 ⟨rfl, rfl, rfl, rfl, .inr ⟨hgoes.2, rfl⟩⟩
    · rw [if_neg hgoes]
      exact .error (h3.perror _).close (told_perror _ _)

end Connect

end BeanRaft.Net
