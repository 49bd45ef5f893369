import BeanRaft.Lib.Decimal
import BeanRaft.Lib.Descriptors

/-!
# BeanRaft.Net.Anet — the sockets of anet.cpp

The functions of `anet.cpp` over a kernel that decides every call, while other threads open and close descriptors
between any two of them.  A descriptor that a function returns is `some`, and `none` is `ANET_ERR`.

* `Sockets`: the kernel, the lists of `getaddrinfo` that are not freed yet, and the buffer for the last error.
* `Holds`: what a function holds on its way; `socket_cases`, `call_cases`, `connect_cases`, `getaddrinfo_cases`: what
  the calls of the kernel do to it, and `option_cases`, `setBlock_cases` the functions that change a socket.
-/

namespace BeanRaft.Net

open Lib

abbrev Addr := List UInt8

/-- What `getaddrinfo` is asked: a host and a port, or NULL, and the hints. -/
structure Query where
  node : Option (List UInt8)
  service : Option (List UInt8)
  ai_family : Int
  ai_flags : Int
  deriving DecidableEq, Repr

/-- An entry of the list that `getaddrinfo` returns. -/
structure AddrInfo where
  ai_family : Int
  ai_addr : Addr
  deriving DecidableEq, Repr

def AF_UNSPEC : Int := 0

def AF_LOCAL : Int := 1

def AF_INET : Int := 2

def AF_INET6 : Int := 10

def AI_PASSIVE : Int := 1

def AI_NUMERICHOST : Int := 4

def EINTR : Int := 4

def EINPROGRESS : Int := 115

def O_RDWR : UInt32 := 2

def O_NONBLOCK : UInt32 := 2048

inductive SockOpt
  | SO_REUSEADDR
  | SO_KEEPALIVE
  | SO_SNDBUF
  | SO_SNDTIMEO
  | TCP_KEEPIDLE
  | TCP_KEEPINTVL
  | TCP_KEEPCNT
  | TCP_NODELAY
  | IPV6_V6ONLY
  deriving DecidableEq, Repr

inductive Stage
  | idle
  | connecting (addr : Addr)
  | connected (addr : Addr)
  | listening (backlog : Int)
  | accepted
  deriving DecidableEq, Repr

/-- A socket: its file status flags, the options that were set, the last first, the address it is bound to, and how far
it is. -/
structure Sock where
  domain : Int
  flags : UInt32
  opts : List (SockOpt × List Int)
  bound : Option Addr
  stage : Stage
  deriving DecidableEq, Repr

def Sock.new (domain : Int) : Sock := ⟨domain, O_RDWR, [], none, .idle⟩

def Sock.setopt (opt : SockOpt) (val : List Int) (k : Sock) : Sock := { k with opts := (opt, val) :: k.opts }

def Sock.setfl (flags : UInt32) (k : Sock) : Sock := { k with flags := flags }

def Sock.bind (addr : Addr) (k : Sock) : Sock := { k with bound := some addr }

def Sock.goto (stage : Stage) (k : Sock) : Sock := { k with stage := stage }

/-- What the last `%` of an error stands for. -/
inductive Detail
  | strerror (errno : Int)
  | gai_strerror (rv : Int)
  | number (n : Int)
  deriving DecidableEq, Repr

/-- The lists of a `getaddrinfo`, by what it is asked; the other calls hand out none. -/
abbrev Reply := List (Query × List AddrInfo)

def Reply.infos (r : Reply) (q : Query) : List AddrInfo := (r.lookup q).getD []

/-- `snprintf(portstr,sizeof(portstr),"%d",port)` -/
def portstr (port : Int) : List UInt8 := (decimal port).take 5

/-- What is asked of a peer, and of the source: the hints are the same. -/
def peerQuery (addr : List UInt8) (port : Int) : Query := ⟨some addr, some (portstr port), AF_UNSPEC, 0⟩

def sourceQuery (source_addr : List UInt8) : Query := ⟨some source_addr, none, AF_UNSPEC, 0⟩

/-- `AI_PASSIVE` is of no effect with a `bindaddr`. -/
def serverQuery (port : Int) (bindaddr : Option (List UInt8)) (af : Int) : Query :=
  ⟨bindaddr, some (portstr port), af, AI_PASSIVE⟩

/-- The flags of a connect: `ANET_CONNECT_NONBLOCK` and `ANET_CONNECT_BE_BINDING`. -/
structure ConnectFlags where
  nonblock : Bool
  be_binding : Bool
  deriving DecidableEq, Repr

/-- How a turn of the loop of `anetTcpGenericConnect` ends: `continue`, `goto error` or `goto end`. -/
inductive Turn
  | again
  | error (s : Nat)
  | done (s : Nat)
  deriving DecidableEq, Repr

structure Sockets where
  kernel : Kernel Sock Reply
  lists : Int
  errbuf : Bool
  err : Option (String × Detail)
  deriving DecidableEq, Repr

namespace Sockets

variable (σ : Sockets)

/-! ## Calls of the kernel -/

/-- `anetSetError`; nothing is done without a buffer. -/
def anetSetError (fmt : String) (detail : Detail) : Sockets := if σ.errbuf then { σ with err := some (fmt, detail) } else σ

/-- An error with `strerror(errno)`. -/
def perror (fmt : String) : Sockets := σ.anetSetError fmt (.strerror σ.kernel.errno)

def socket (domain : Int) : Sockets × Option Nat :=
  let r := σ.kernel.openFd (.new domain)
  ({ σ with kernel := r.1 }, r.2)

/-- The new socket is of the same family. -/
def accept (s : Nat) : Sockets × Option Nat :=
  let domain := ((σ.kernel.held.lookup s).map Sock.domain).getD 0
  let r := σ.kernel.openFd ((Sock.new domain).goto .accepted)
  ({ σ with kernel := r.1 }, r.2)

def close (s : Nat) : Sockets := { σ with kernel := σ.kernel.close s }

/-- A call on a socket that changes it when it succeeds. -/
def call (f : Sock → Sock) (s : Nat) : Sockets × Bool :=
  let r := σ.kernel.change f (fun _ k => k) s
  ({ σ with kernel := r.1 }, r.2)

def setsockopt (s : Nat) (opt : SockOpt) (val : List Int) : Sockets × Bool :=
  σ.call (.setopt opt val) s

def bind (s : Nat) (addr : Addr) : Sockets × Bool := σ.call (.bind addr) s

def listen (s : Nat) (backlog : Int) : Sockets × Bool := σ.call (.goto (.listening backlog)) s

/-- A `connect` that fails with `EINPROGRESS` goes on. -/
def connect (s : Nat) (addr : Addr) : Sockets × Bool :=
  let r := σ.kernel.change (.goto (.connected addr))
    (fun errno k => if errno = EINPROGRESS then k.goto (.connecting addr) else k) s
  ({ σ with kernel := r.1 }, r.2)

/-- `fcntl(s, F_GETFL)` -/
def getfl (s : Nat) : Sockets × Option UInt32 :=
  let r := σ.call id s
  (r.1, if r.2 then (r.1.kernel.held.lookup s).map Sock.flags else none)

/-- `fcntl(s, F_SETFL, flags)` -/
def setfl (s : Nat) (flags : UInt32) : Sockets × Bool := σ.call (.setfl flags) s

/-- A list is not empty. -/
def getaddrinfo (q : Query) : Sockets × Except Int (List AddrInfo) :=
  match σ.kernel.next with
  | (⟨none, errno, _, _⟩, k) => ({ σ with kernel := k }, .error errno)
  | (⟨some _, errno, reply, _⟩, k) =>
    if reply.infos q = [] then ({ σ with kernel := k }, .error errno)
    else ({ σ with kernel := k, lists := σ.lists + 1 }, .ok (reply.infos q))

def freeaddrinfo : Sockets := { σ with lists := σ.lists - 1 }

/-! ## Options -/

/-- A function that sets one option, with the error of its failure. -/
def option (s : Nat) (opt : SockOpt) (val : List Int) (fmt : String) : Sockets × Bool :=
  match σ.setsockopt s opt val with
  | (σ, true) => (σ, true)
  | (σ, false) => (σ.perror fmt, false)

def anetSetReuseAddr (s : Nat) : Sockets × Bool := σ.option s .SO_REUSEADDR [1] "setsockopt SO_REUSEADDR: %s"

def anetTcpKeepAlive (s : Nat) : Sockets × Bool := σ.option s .SO_KEEPALIVE [1] "setsockopt SO_KEEPALIVE: %s"

def anetSetTcpNoDelay (s : Nat) (val : Int) : Sockets × Bool := σ.option s .TCP_NODELAY [val] "setsockopt TCP_NODELAY: %s"

def anetEnableTcpNoDelay (s : Nat) : Sockets × Bool := σ.anetSetTcpNoDelay s 1

def anetDisableTcpNoDelay (s : Nat) : Sockets × Bool := σ.anetSetTcpNoDelay s 0

def anetSetSendBuffer (s : Nat) (buffsize : Int) : Sockets × Bool := σ.option s .SO_SNDBUF [buffsize] "setsockopt SO_SNDBUF: %s"

/-- `tv_sec` and `tv_usec` -/
def anetSendTimeout (s : Nat) (ms : Int) : Sockets × Bool :=
  σ.option s .SO_SNDTIMEO [ms.tdiv 1000, ms.tmod 1000 * 1000] "setsockopt SO_SNDTIMEO: %s"

/-- The first probe after `interval`, and three more of them in another `interval`. -/
def anetKeepAlive (s : Nat) (interval : Int) : Sockets × Bool :=
  match σ.option s .SO_KEEPALIVE [1] "setsockopt SO_KEEPALIVE: %s" with
  | (σ, false) => (σ, false)
  | (σ, true) =>
    match σ.option s .TCP_KEEPIDLE [interval] "setsockopt TCP_KEEPIDLE: %s\n" with
    | (σ, false) => (σ, false)
    | (σ, true) =>
      match σ.option s .TCP_KEEPINTVL [if interval.tdiv 3 = 0 then 1 else interval.tdiv 3]
          "setsockopt TCP_KEEPINTVL: %s\n" with
      | (σ, false) => (σ, false)
      | (σ, true) => σ.option s .TCP_KEEPCNT [3] "setsockopt TCP_KEEPCNT: %s\n"

def anetSetBlock (s : Nat) (non_block : Bool) : Sockets × Bool :=
  match σ.getfl s with
  | (σ, none) => (σ.perror "fcntl(F_GETFL): %s", false)
  | (σ, some flags) =>
    match σ.setfl s (if non_block then flags ||| O_NONBLOCK else flags &&& ~~~O_NONBLOCK) with
    | (σ, false) => (σ.perror "fcntl(F_SETFL,O_NONBLOCK): %s", false)
    | (σ, true) => (σ, true)

def anetNonBlock (s : Nat) : Sockets × Bool := σ.anetSetBlock s true

def anetBlock (s : Nat) : Sockets × Bool := σ.anetSetBlock s false

/-! ## Connecting -/

/-- `anetGenericResolve`: the family and the address that are printed into `ipbuf`. -/
def anetGenericResolve (host : List UInt8) (ip_only : Bool) : Sockets × Option (Int × Addr) :=
  match σ.getaddrinfo ⟨some host, none, AF_UNSPEC, if ip_only then AI_NUMERICHOST else 0⟩ with
  | (σ, .error rv) => (σ.anetSetError "%s" (.gai_strerror rv), none)
  | (σ, .ok infos) =>
    (σ.freeaddrinfo, infos.head?.map fun info => (if info.ai_family = AF_INET then AF_INET else AF_INET6, info.ai_addr))

def anetCreateSocket (domain : Int) : Sockets × Option Nat :=
  match σ.socket domain with
  | (σ, none) => (σ.perror "creating socket: %s", none)
  | (σ, some s) =>
    match σ.anetSetReuseAddr s with
    | (σ, false) => (σ.close s, none)
    | (σ, true) => (σ, some s)

/-- `for (b = bservinfo; b != NULL; b = b->ai_next)`: whether the socket could be bound. -/
def bindAny (s : Nat) : List AddrInfo → Sockets → Sockets × Bool
  | [], σ => (σ, false)
  | b :: bs, σ =>
    match σ.bind s b.ai_addr with
    | (σ, true) => (σ, true)
    | (σ, false) => bindAny s bs σ

/-- `if (source_addr) …` -/
def bindSource (s : Nat) : Option (List UInt8) → Sockets × Bool
  | none => (σ, true)
  | some source_addr =>
    match σ.getaddrinfo (sourceQuery source_addr) with
    | (σ, .error rv) => (σ.anetSetError "%s" (.gai_strerror rv), false)
    | (σ, .ok bservinfo) =>
      match bindAny s bservinfo σ with
      | (σ, true) => (σ.freeaddrinfo, true)
      | (σ, false) => (σ.freeaddrinfo.perror "bind: %s", false)

/-- A turn of the loop of `anetTcpGenericConnect`. -/
def tryConnect (source_addr : Option (List UInt8)) (flags : ConnectFlags) (p : AddrInfo) : Sockets × Turn :=
  match σ.socket p.ai_family with
  | (σ, none) => (σ, .again)
  | (σ, some s) =>
    match σ.anetSetReuseAddr s with
    | (σ, false) => (σ, .error s)
    | (σ, true) =>
      match if flags.nonblock then σ.anetNonBlock s else (σ, true) with
      | (σ, false) => (σ, .error s)
      | (σ, true) =>
        match σ.bindSource s source_addr with
        | (σ, false) => (σ, .error s)
        | (σ, true) =>
          match σ.connect s p.ai_addr with
          | (σ, true) => (σ, .done s)
          | (σ, false) =>
            if σ.kernel.errno = EINPROGRESS ∧ flags.nonblock then (σ, .done s) else (σ.close s, .again)

/-- The loop, and the label `error`. -/
def connectLoop (source_addr : Option (List UInt8)) (flags : ConnectFlags) : List AddrInfo → Sockets → Sockets × Option Nat
  | [], σ => (σ.perror "creating socket: %s", none)
  | p :: ps, σ =>
    match σ.tryConnect source_addr flags p with
    | (σ, .again) => connectLoop source_addr flags ps σ
    | (σ, .error s) => (σ.close s, none)
    | (σ, .done s) => (σ, some s)

/-- `anetTcpGenericConnect`, where `again` is the call of itself at its end. -/
def connectWith (again : Sockets → Sockets × Option Nat) (addr : List UInt8) (port : Int)
    (source_addr : Option (List UInt8)) (flags : ConnectFlags) : Sockets × Option Nat :=
  match σ.getaddrinfo (peerQuery addr port) with
  | (σ, .error rv) => (σ.anetSetError "%s" (.gai_strerror rv), none)
  | (σ, .ok servinfo) =>
    match connectLoop source_addr flags servinfo σ with
    | (σ, none) =>
      if source_addr.isSome ∧ flags.be_binding then again σ.freeaddrinfo else (σ.freeaddrinfo, none)
    | (σ, some s) => (σ.freeaddrinfo, some s)

/-- The call without a source address calls itself no more. -/
def anetTcpGenericConnect (addr : List UInt8) (port : Int) (source_addr : Option (List UInt8)) (flags : ConnectFlags) :
    Sockets × Option Nat :=
  σ.connectWith (fun σ => σ.connectWith (fun σ => (σ, none)) addr port none flags) addr port source_addr flags

def anetTcpConnect (addr : List UInt8) (port : Int) : Sockets × Option Nat :=
  σ.anetTcpGenericConnect addr port none ⟨false, false⟩

def anetTcpNonBlockConnect (addr : List UInt8) (port : Int) : Sockets × Option Nat :=
  σ.anetTcpGenericConnect addr port none ⟨true, false⟩

def anetTcpNonBlockBindConnect (addr : List UInt8) (port : Int) (source_addr : Option (List UInt8)) :
    Sockets × Option Nat :=
  σ.anetTcpGenericConnect addr port source_addr ⟨true, false⟩

def anetTcpNonBlockBestEffortBindConnect (addr : List UInt8) (port : Int) (source_addr : Option (List UInt8)) :
    Sockets × Option Nat :=
  σ.anetTcpGenericConnect addr port source_addr ⟨true, true⟩

def anetUnixGenericConnect (path : Addr) (nonblock : Bool) : Sockets × Option Nat :=
  match σ.anetCreateSocket AF_LOCAL with
  | (σ, none) => (σ, none)
  | (σ, some s) =>
    match if nonblock then σ.anetNonBlock s else (σ, true) with
    | (σ, false) => (σ.close s, none)
    | (σ, true) =>
      match σ.connect s (path.take 107) with
      | (σ, true) => (σ, some s)
      | (σ, false) =>
        if σ.kernel.errno = EINPROGRESS ∧ nonblock then (σ, some s) else ((σ.perror "connect: %s").close s, none)

def anetUnixConnect (path : Addr) : Sockets × Option Nat := σ.anetUnixGenericConnect path false

def anetUnixNonBlockConnect (path : Addr) : Sockets × Option Nat := σ.anetUnixGenericConnect path true

/-! ## Listening -/

def anetListen (s : Nat) (addr : Addr) (backlog : Int) : Sockets × Bool :=
  match σ.bind s addr with
  | (σ, false) => ((σ.perror "bind: %s").close s, false)
  | (σ, true) =>
    match σ.listen s backlog with
    | (σ, false) => ((σ.perror "listen: %s").close s, false)
    | (σ, true) => (σ, true)

def anetV6Only (s : Nat) : Sockets × Bool :=
  match σ.setsockopt s .IPV6_V6ONLY [1] with
  | (σ, false) => ((σ.perror "setsockopt: %s").close s, false)
  | (σ, true) => (σ, true)

/-- The loop of `_anetTcpServer`, and the label `error`.  The socket is closed there although `anetV6Only` has closed
it. -/
def serverLoop (af backlog : Int) : List AddrInfo → Sockets → Sockets × Option Nat
  | [], σ => (σ.anetSetError "unable to bind socket, errno: %d" (.number σ.kernel.errno), none)
  | p :: ps, σ =>
    match σ.socket p.ai_family with
    | (σ, none) => serverLoop af backlog ps σ
    | (σ, some s) =>
      match if af = AF_INET6 then σ.anetV6Only s else (σ, true) with
      | (σ, false) => (σ.close s, none)
      | (σ, true) =>
        match σ.anetSetReuseAddr s with
        | (σ, false) => (σ.close s, none)
        | (σ, true) =>
          match σ.anetListen s p.ai_addr backlog with
          | (σ, false) => (σ, none)
          | (σ, true) => (σ, some s)

/-- `_anetTcpServer` -/
def tcpServer (port : Int) (bindaddr : Option (List UInt8)) (af backlog : Int) : Sockets × Option Nat :=
  match σ.getaddrinfo (serverQuery port bindaddr af) with
  | (σ, .error rv) => (σ.anetSetError "%s" (.gai_strerror rv), none)
  | (σ, .ok servinfo) =>
    match serverLoop af backlog servinfo σ with
    | (σ, s) => (σ.freeaddrinfo, s)

def anetTcpServer (port : Int) (bindaddr : Option (List UInt8)) (backlog : Int) : Sockets × Option Nat :=
  σ.tcpServer port bindaddr AF_INET backlog

def anetTcp6Server (port : Int) (bindaddr : Option (List UInt8)) (backlog : Int) : Sockets × Option Nat :=
  σ.tcpServer port bindaddr AF_INET6 backlog

/-- The result of `chmod` is not looked at. -/
def anetUnixServer (path : Addr) (perm : Nat) (backlog : Int) : Sockets × Option Nat :=
  match σ.anetCreateSocket AF_LOCAL with
  | (σ, none) => (σ, none)
  | (σ, some s) =>
    match σ.anetListen s (path.take 107) backlog with
    | (σ, false) => (σ, none)
    | (σ, true) => (if perm ≠ 0 then { σ with kernel := σ.kernel.next.2 } else σ, some s)

/-! ## Accepting -/

/-- `while(1)`: an `accept` that is interrupted is called again.  There are no more turns than answers. -/
def acceptLoop (s : Nat) : Nat → Sockets → Sockets × Option Nat
  | 0, σ => (σ, none)
  | fuel + 1, σ =>
    match σ.accept s with
    | (σ, some fd) => (σ, some fd)
    | (σ, none) => if σ.kernel.errno = EINTR then acceptLoop s fuel σ else (σ.perror "accept: %s", none)

def anetGenericAccept (s : Nat) : Sockets × Option Nat := acceptLoop s (σ.kernel.answers.length + 1) σ

def anetUnixAccept (s : Nat) : Sockets × Option Nat := σ.anetGenericAccept s

end Sockets

/-! ## What the calls hold -/

/-- The sockets of `l` and `n` lists are held beside what was held in `σ0`, and no other descriptor was closed. -/
structure Holds (σ0 : Sockets) (l : List (Nat × Sock)) (n : Int) (σ : Sockets) : Prop where
  kernel : σ0.kernel.Beside l σ.kernel
  lists : σ.lists = σ0.lists + n
  errbuf : σ.errbuf = σ0.errbuf

/-- There is an error in the buffer, when there is a buffer. -/
def Told (σ : Sockets) : Prop := σ.errbuf = true → σ.err ≠ none

/-- `getaddrinfo` may return this entry when it is asked for `q`. -/
def Listed (σ : Sockets) (q : Query) (p : AddrInfo) : Prop := ∃ a ∈ σ.kernel.answers, p ∈ Reply.infos a.data q

section Calls

variable {σ0 σ : Sockets} {l : List (Nat × Sock)} {n : Int} {s : Nat} {k : Sock}

theorem Holds.refl : Holds σ [] 0 σ := ⟨.refl, (Int.add_zero _).symm, rfl⟩

theorem Holds.anetSetError (h : Holds σ0 l n σ) (fmt : String) (detail : Detail) :
    Holds σ0 l n (σ.anetSetError fmt detail) := by
  unfold Sockets.anetSetError
  split_ifs
  · exact ⟨h.kernel, h.lists, h.errbuf⟩
  · exact h

theorem told_anetSetError (σ : Sockets) (fmt : String) (detail : Detail) : Told (σ.anetSetError fmt detail) := by
  intro hbuf
  unfold Sockets.anetSetError at hbuf ⊢
  by_cases h : σ.errbuf = true
  · rw [if_pos h]
    simp
  · rw [if_neg h] at hbuf
    exact absurd hbuf h

theorem Holds.perror (h : Holds σ0 l n σ) (fmt : String) : Holds σ0 l n (σ.perror fmt) := h.anetSetError _ _

theorem told_perror (σ : Sockets) (fmt : String) : Told (σ.perror fmt) := told_anetSetError _ _ _

theorem Told.close (h : Told σ) (s : Nat) : Told (σ.close s) := h

theorem Told.freeaddrinfo (h : Told σ) : Told σ.freeaddrinfo := h

theorem Holds.freeaddrinfo (h : Holds σ0 l (n + 1) σ) : Holds σ0 l n σ.freeaddrinfo := by
  refine ⟨h.kernel, ?_, h.errbuf⟩
  have hlists := h.lists
  show σ.lists - 1 = σ0.lists + n
  omega

theorem Holds.close (h : Holds σ0 [(s, k)] n σ) : Holds σ0 [] n (σ.close s) := ⟨h.kernel.close, h.lists, h.errbuf⟩

theorem socket_cases (h : Holds σ0 [] n σ) (domain : Int) :
    (∃ σ', σ.socket domain = (σ', none) ∧ Holds σ0 [] n σ') ∨
    ∃ σ' s, σ.socket domain = (σ', some s) ∧ Holds σ0 [(s, .new domain)] n σ' := by
  unfold Sockets.socket
  rcases Kernel.openFd_cases h.kernel (.new domain) with ⟨hr, hk⟩ | ⟨s, hr, hk⟩
  · refine .inl ⟨{ σ with kernel := (σ.kernel.openFd (.new domain)).1 }, ?_, hk, h.lists, h.errbuf⟩
    dsimp only
    rw [hr]
  · refine .inr ⟨{ σ with kernel := (σ.kernel.openFd (.new domain)).1 }, s, ?_, hk, h.lists, h.errbuf⟩
    dsimp only
    rw [hr]

theorem call_cases (h : Holds σ0 [(s, k)] n σ) (f : Sock → Sock) :
    (∃ σ', σ.call f s = (σ', true) ∧ Holds σ0 [(s, f k)] n σ') ∨
    ∃ σ', σ.call f s = (σ', false) ∧ Holds σ0 [(s, k)] n σ' := by
  unfold Sockets.call
  rcases Kernel.change_cases h.kernel f (fun _ k => k) with ⟨hr, hk⟩ | ⟨hr, hk⟩
  · refine .inl ⟨{ σ with kernel := (σ.kernel.change f (fun _ k => k) s).1 }, ?_, hk, h.lists, h.errbuf⟩
    dsimp only
    rw [hr]
  · refine .inr ⟨{ σ with kernel := (σ.kernel.change f (fun _ k => k) s).1 }, ?_, hk, h.lists, h.errbuf⟩
    dsimp only
    rw [hr]

theorem connect_cases (h : Holds σ0 [(s, k)] n σ) (addr : Addr) :
    (∃ σ', σ.connect s addr = (σ', true) ∧ Holds σ0 [(s, k.goto (.connected addr))] n σ') ∨
    ∃ σ', σ.connect s addr = (σ', false) ∧
      Holds σ0 [(s, if σ'.kernel.errno = EINPROGRESS then k.goto (.connecting addr) else k)] n σ' := by
  have hcases := Kernel.change_cases h.kernel (.goto (.connected addr))
    (fun errno k => if errno = EINPROGRESS then k.goto (.connecting addr) else k)
  unfold Sockets.connect
  generalize σ.kernel.change (.goto (.connected addr))
    (fun errno k => if errno = EINPROGRESS then k.goto (.connecting addr) else k) s = r at hcases ⊢
  rcases hcases with ⟨hr, hk⟩ | ⟨hr, hk⟩
  · refine .inl ⟨{ σ with kernel := r.1 }, ?_, hk, h.lists, h.errbuf⟩
    dsimp only
    rw [hr]
  · refine .inr ⟨{ σ with kernel := r.1 }, ?_, hk, h.lists, h.errbuf⟩
    dsimp only
    rw [hr]

theorem getaddrinfo_cases (h : Holds σ0 l n σ) (q : Query) :
    (∃ σ' rv, σ.getaddrinfo q = (σ', .error rv) ∧ Holds σ0 l n σ') ∨
    ∃ σ' infos, σ.getaddrinfo q = (σ', .ok infos) ∧ infos ≠ [] ∧ (∀ p ∈ infos, Listed σ0 q p) ∧
      Holds σ0 l (n + 1) σ' := by
  have hnext := h.kernel.next
  have hanswers := h.kernel.answers
  have hlists := h.lists
  unfold Sockets.getaddrinfo Kernel.next at *
  rcases hk : σ.kernel.answers with _ | ⟨⟨ret, errno, reply, others⟩, answers⟩
  · rw [hk] at hnext
    exact .inl ⟨_, 5, rfl, hnext, hlists, h.errbuf⟩
  · rw [hk] at hnext hanswers
    have hlisted : ∀ p ∈ reply.infos q, Listed σ0 q p :=
      fun p hp => ⟨_, hanswers.subset (List.mem_cons_self ..), hp⟩
    cases ret with
    | none => exact .inl ⟨_, errno, rfl, hnext, hlists, h.errbuf⟩
    | some r =>
      by_cases hnil : reply.infos q = []
      · dsimp only
        rw [if_pos hnil]
        exact .inl ⟨_, errno, rfl, hnext, hlists, h.errbuf⟩
      · dsimp only
        rw [if_neg hnil]
        refine .inr ⟨_, reply.infos q, rfl, hnil, hlisted, hnext, ?_, h.errbuf⟩
        dsimp only
        omega

/-! ## Functions that change a socket -/

theorem option_cases (h : Holds σ0 [(s, k)] n σ) (opt : SockOpt) (val : List Int) (fmt : String) :
    (∃ σ', σ.option s opt val fmt = (σ', true) ∧ Holds σ0 [(s, k.setopt opt val)] n σ') ∨
    ∃ σ', σ.option s opt val fmt = (σ', false) ∧ Holds σ0 [(s, k)] n σ' ∧ Told σ' := by
  unfold Sockets.option Sockets.setsockopt
  rcases call_cases h (.setopt opt val) with ⟨σ', hr, h'⟩ | ⟨σ', hr, h'⟩
  · rw [hr]
    exact .inl ⟨σ', rfl, h'⟩
  · rw [hr]
    exact .inr ⟨_, rfl, h'.perror fmt, told_perror _ _⟩

/-- The status flags with `O_NONBLOCK` or without. -/
def Sock.block (non_block : Bool) (k : Sock) : Sock :=
  k.setfl (if non_block then k.flags ||| O_NONBLOCK else k.flags &&& ~~~O_NONBLOCK)

/-- Only `O_NONBLOCK` changes. -/
theorem setBlock_cases (h : Holds σ0 [(s, k)] n σ) (non_block : Bool) :
    (∃ σ', σ.anetSetBlock s non_block = (σ', true) ∧ Holds σ0 [(s, k.block non_block)] n σ') ∨
    ∃ σ', σ.anetSetBlock s non_block = (σ', false) ∧ Holds σ0 [(s, k)] n σ' ∧ Told σ' := by
  unfold Sockets.anetSetBlock Sockets.getfl
  rcases call_cases h id with ⟨σ1, hr, h1⟩ | ⟨σ1, hr, h1⟩
  · have hlookup : (σ1.kernel.held.lookup s).map Sock.flags = some k.flags := by
      rw [h1.kernel.held]
      simp
    simp only [hr, if_true, hlookup]
    unfold Sockets.setfl
    rcases call_cases h1 (.setfl (if non_block then k.flags ||| O_NONBLOCK else k.flags &&& ~~~O_NONBLOCK)) with
      ⟨σ2, hr, h2⟩ | ⟨σ2, hr, h2⟩
    · rw [hr]
      exact .inl ⟨σ2, rfl, h2⟩
    · rw [hr]
      exact .inr ⟨_, rfl, h2.perror _, told_perror _ _⟩
  · rw [hr]
    exact .inr ⟨_, rfl, h1.perror _, told_perror _ _⟩

end Calls

end BeanRaft.Net
