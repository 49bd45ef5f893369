import BeanRaft.Lib.Lts
import BeanRaft.Net.Server

/-!
# BeanRaft.Net.Handles — a thread that uses the functions of anet.cpp

A thread connects, listens, accepts, sets options and closes its descriptors, in any order, while the kernel refuses any
call and other threads open and close descriptors of their own.

* `Opening`, `Setting`, `CallAct`: the calls of the thread, each with the answers of the kernel.
* `Balanced`: the thread's descriptors are exactly its handles, every list of `getaddrinfo` is freed, and a call that
  failed has left its error.  `handles_balanced`: so it is in every state of every run.
* `handles_exact`: the thread calls `close` on no number that is not its own exactly when no `anetTcp6Server` is
  refused `IPV6_V6ONLY`.
-/

namespace BeanRaft.Net

open Lib Lts

/-- A function that returns a descriptor. -/
inductive Opening
  | connect (addr : List UInt8) (port : Int) (source : Option (List UInt8)) (flags : ConnectFlags)
  | unixConnect (path : Addr) (nonblock : Bool)
  | server (port : Int) (bindaddr : Option (List UInt8)) (af backlog : Int)
  | unixServer (path : Addr) (perm : Nat) (backlog : Int)
  | accept (s : Nat)
  deriving DecidableEq, Repr

/-- A function that changes a socket. -/
inductive Setting
  | option (opt : SockOpt) (val : List Int) (fmt : String)
  | keepAlive (interval : Int)
  | block (non_block : Bool)
  deriving DecidableEq, Repr

inductive Call
  | opening (o : Opening)
  | setting (s : Nat) (e : Setting)
  | resolve (host : List UInt8) (ip_only : Bool)
  | close (s : Nat)
  deriving DecidableEq, Repr

/-- A call, with a buffer for the error or without, and what the kernel answers. -/
structure CallAct where
  call : Call
  errbuf : Bool
  answers : List (KernelAnswer Reply)
  deriving DecidableEq, Repr

def Opening.run (σ : Sockets) : Opening → Sockets × Option Nat
  | connect addr port source flags => σ.anetTcpGenericConnect addr port source flags
  | unixConnect path nonblock => σ.anetUnixGenericConnect path nonblock
  | server port bindaddr af backlog => σ.tcpServer port bindaddr af backlog
  | unixServer path perm backlog => σ.anetUnixServer path perm backlog
  | accept s => σ.anetGenericAccept s

def Setting.run (σ : Sockets) (s : Nat) : Setting → Sockets × Bool
  | option opt val fmt => σ.option s opt val fmt
  | keepAlive interval => σ.anetKeepAlive s interval
  | block non_block => σ.anetSetBlock s non_block

/-- The sockets, the handles that the thread keeps, and whether the last call returned `ANET_ERR`. -/
structure Thread where
  sockets : Sockets
  handles : List Nat
  failed : Bool
  deriving DecidableEq, Repr

namespace Thread

variable (t : Thread)

/-- The sockets when a call begins. -/
def enter (a : CallAct) : Sockets :=
  { t.sockets with kernel := { t.sockets.kernel with answers := a.answers }, errbuf := a.errbuf, err := none }

/-- The transition function: a thread closes only a handle of its own. -/
def step (a : CallAct) : Option Thread :=
  match a.call with
  | .opening o =>
    let r := o.run (t.enter a)
    some ⟨r.1, r.2.toList ++ t.handles, r.2.isNone⟩
  | .setting s e =>
    let r := e.run (t.enter a) s
    some ⟨r.1, t.handles, !r.2⟩
  | .resolve host ip_only =>
    let r := (t.enter a).anetGenericResolve host ip_only
    some ⟨r.1, t.handles, r.2.isNone⟩
  | .close s => if s ∈ t.handles then some ⟨(t.enter a).close s, t.handles.filter (· ≠ s), false⟩ else none

/-- A thread without descriptors, among others. -/
def start (others : List Nat) : Thread := ⟨⟨⟨[], others, [], 0, []⟩, 0, false, none⟩, [], false⟩

end Thread

/-- The thread as a transition system. -/
def thread : System Thread CallAct where
  init t := ∃ others, t = .start others
  step := Thread.step

/-! ## The property and its condition -/

structure Balanced (t : Thread) : Prop where
  fds : t.sockets.kernel.fds = t.handles
  nodup : t.handles.Nodup
  lists : t.sockets.lists = 0
  told : t.failed = true → Told t.sockets

/-- `close` was called on no number that was not a descriptor of the thread: it may be one of another thread, or of
nobody. -/
def OwnOnly (t : Thread) : Prop := t.sockets.kernel.strays = []

/-- The call is not an `anetTcp6Server` that is refused `IPV6_V6ONLY`. -/
def V6OnlySet (t : Thread) (a : CallAct) : Prop :=
  match a.call with
  | .opening (.server port bindaddr af _) => ¬ (af = AF_INET6 ∧ (t.enter a).refusesV6 (serverQuery port bindaddr af))
  | _ => True

instance (t : Thread) (a : CallAct) : Decidable (V6OnlySet t a) := by
  unfold V6OnlySet
  split <;> infer_instance

/-! ## A function that changes a socket -/

/-- The descriptors, the lists and what was closed are as before. -/
structure Same (σ0 σ : Sockets) : Prop where
  fds : σ.kernel.fds = σ0.kernel.fds
  strays : σ.kernel.strays = σ0.kernel.strays
  lists : σ.lists = σ0.lists

/-- A function changes no descriptor, and leaves an error when it fails. -/
def Sets (σ0 : Sockets) (r : Sockets × Bool) : Prop := Same σ0 r.1 ∧ (r.2 = false → Told r.1)

section Settings

variable {σ0 σ : Sockets} {s : Nat}

theorem Same.refl : Same σ σ := ⟨rfl, rfl, rfl⟩

theorem Same.anetSetError (h : Same σ0 σ) (fmt : String) (detail : Detail) : Same σ0 (σ.anetSetError fmt detail) := by
  unfold Sockets.anetSetError
  split_ifs
  · exact ⟨h.fds, h.strays, h.lists⟩
  · exact h

theorem Same.call (h : Same σ0 σ) (f : Sock → Sock) (s : Nat) : Same σ0 (σ.call f s).1 := by
  obtain ⟨hfds, hstrays⟩ := Kernel.change_fds (k := σ.kernel) f (fun _ k => k) s
  exact ⟨hfds.trans h.fds, hstrays.trans h.strays, h.lists⟩

theorem Same.option (h : Same σ0 σ) (s : Nat) (opt : SockOpt) (val : List Int) (fmt : String) :
    Sets σ0 (σ.option s opt val fmt) := by
  have hcall := h.call (.setopt opt val) s
  unfold Sockets.option Sockets.setsockopt
  rcases hr : σ.call (.setopt opt val) s with ⟨σ1, ok⟩
  rw [hr] at hcall
  cases ok with
  | true => exact ⟨hcall, fun hno => absurd hno (by simp)⟩
  | false => exact ⟨hcall.anetSetError _ _, fun _ => told_perror _ _⟩

/-- A function after one that changed no descriptor. -/
theorem Sets.andThen {r : Sockets × Bool} {f : Sockets → Sockets × Bool} :
    Sets σ0 r → (∀ σ, Same σ0 σ → Sets σ0 (f σ)) →
    Sets σ0 (match r with
      | (σ, false) => (σ, false)
      | (σ, true) => f σ) := by
  intro h hf
  rcases r with ⟨σ, _ | _⟩
  · exact h
  · exact hf σ h.1

theorem Same.anetKeepAlive (h : Same σ0 σ) (s : Nat) (interval : Int) : Sets σ0 (σ.anetKeepAlive s interval) := by
  unfold Sockets.anetKeepAlive
  refine (h.option s _ _ _).andThen fun σ1 h1 => ?_
  refine (h1.option s _ _ _).andThen fun σ2 h2 => ?_
  refine (h2.option s _ _ _).andThen fun σ3 h3 => ?_
  exact h3.option s _ _ _

theorem Same.anetSetBlock (h : Same σ0 σ) (s : Nat) (non_block : Bool) : Sets σ0 (σ.anetSetBlock s non_block) := by
  have hget := h.call id s
  unfold Sockets.anetSetBlock Sockets.getfl
  dsimp only
  rcases hr : σ.call id s with ⟨σ1, ok⟩
  rw [hr] at hget
  cases hflags : if ok then (σ1.kernel.held.lookup s).map Sock.flags else none with
  | none =>
    exact ⟨hget.anetSetError _ _, fun _ => told_perror _ _⟩
  | some flags =>
    dsimp only
    unfold Sockets.setfl
    generalize (if non_block then flags ||| O_NONBLOCK else flags &&& ~~~O_NONBLOCK) = flags'
    have hset := hget.call (.setfl flags') s
    rcases hr : σ1.call (.setfl flags') s with ⟨σ2, ok⟩
    rw [hr] at hset
    cases ok with
    | true => exact ⟨hset, fun hno => absurd hno (by simp)⟩
    | false => exact ⟨hset.anetSetError _ _, fun _ => told_perror _ _⟩

theorem Setting.run_sets (e : Setting) (σ : Sockets) (s : Nat) : Sets σ (e.run σ s) := by
  cases e with
  | option opt val fmt => exact Same.refl.option s opt val fmt
  | keepAlive interval => exact Same.refl.anetKeepAlive s interval
  | block non_block => exact Same.refl.anetSetBlock s non_block

/-- The one list is freed. -/
theorem anetGenericResolve_cases (σ : Sockets) (host : List UInt8) (ip_only : Bool) :
    ∃ σ' r, σ.anetGenericResolve host ip_only = (σ', r) ∧ Holds σ [] 0 σ' ∧ (r = none → Told σ') := by
  unfold Sockets.anetGenericResolve
  rcases getaddrinfo_cases (.refl (σ := σ)) _ with ⟨σ1, rv, hr, h1⟩ | ⟨σ1, infos, hr, hne, -, h1⟩
  · rw [hr]
    exact ⟨_, _, rfl, h1.anetSetError _ _, fun _ => told_anetSetError _ _ _⟩
  · rw [hr]
    refine ⟨_, _, rfl, h1.freeaddrinfo, fun hnone => ?_⟩
    rw [Option.map_eq_none_iff, List.head?_eq_none_iff] at hnone
    exact absurd hnone hne

end Settings

/-! ## Steps -/

section Steps

variable {t t' : Thread} {a : CallAct} {r : Sockets × Option Nat} {P : Sock → Prop}

/-- A function that returns a descriptor leaves one socket or none, or it has closed a descriptor twice. -/
theorem Opening.run_cases (o : Opening) (σ : Sockets) :
    ((∀ port bindaddr backlog, o = .server port bindaddr AF_INET6 backlog →
        σ.refusesV6 (serverQuery port bindaddr AF_INET6) = false) ∧ Ends σ 0 (fun _ => True) (o.run σ)) ∨
    (∃ port bindaddr backlog, o = .server port bindaddr AF_INET6 backlog ∧
        σ.refusesV6 (serverQuery port bindaddr AF_INET6) = true) ∧
      ∃ σ' s, o.run σ = (σ', none) ∧ Told σ' ∧ Stray σ 0 s σ' := by
  cases o with
  | connect addr port source flags =>
    exact .inl ⟨by simp, tcpGenericConnect_ends σ addr port source flags (by simp) (by simp)⟩
  | unixConnect path nonblock => exact .inl ⟨by simp, (anetUnixGenericConnect_ends σ path nonblock).imp (by simp)⟩
  | unixServer path perm backlog => exact .inl ⟨by simp, (anetUnixServer_ends σ path perm backlog).imp (by simp)⟩
  | accept s => exact .inl ⟨by simp, (anetGenericAccept_ends σ s).imp (by simp)⟩
  | server port bindaddr af backlog =>
    rcases tcpServer_cases σ port bindaddr af backlog with ⟨hno, hends⟩ | ⟨⟨haf, hyes⟩, h⟩
    · refine .inl ⟨?_, hends.imp (by simp)⟩
      intro port' bindaddr' backlog' ho
      obtain ⟨rfl, rfl, rfl, -⟩ := Opening.server.inj ho
      simpa using hno
    · subst haf
      exact .inr ⟨⟨port, bindaddr, backlog, rfl, hyes⟩, h⟩

/-- The new descriptor is a handle of its own. -/
theorem Balanced.ends (hb : Balanced t) (h : Ends (t.enter a) 0 P r) :
    Balanced ⟨r.1, r.2.toList ++ t.handles, r.2.isNone⟩ ∧ r.1.kernel.strays = t.sockets.kernel.strays := by
  have hold : (t.enter a).kernel.held.map Prod.fst = t.handles := hb.fds
  rcases h with ⟨σ, rfl, h, ht⟩ | ⟨σ, s, k, rfl, h, -⟩
  · refine ⟨⟨?_, hb.nodup, h.lists.trans ?_, fun _ => ht⟩, h.kernel.strays⟩
    · show σ.kernel.held.map Prod.fst = t.handles
      rw [h.kernel.held]
      exact hold
    · rw [Int.add_zero]
      exact hb.lists
  · refine ⟨⟨?_, ?_, h.lists.trans ?_, fun hno => absurd hno (by simp)⟩, h.kernel.strays⟩
    · show σ.kernel.held.map Prod.fst = s :: t.handles
      rw [h.kernel.held, List.map_append, hold]
      rfl
    · have hfresh : s ∉ t.handles := by
        rw [← hb.fds]
        exact h.kernel.fresh (s, k) (by simp)
      exact List.nodup_cons.mpr ⟨hfresh, hb.nodup⟩
    · rw [Int.add_zero]
      exact hb.lists

/-- Even then no descriptor is lost. -/
theorem Balanced.stray (hb : Balanced t) {σ : Sockets} {s : Nat} (ht : Told σ) (h : Stray (t.enter a) 0 s σ) :
    Balanced ⟨σ, t.handles, true⟩ := by
  refine ⟨?_, hb.nodup, h.lists.trans ?_, fun _ => ht⟩
  · show σ.kernel.held.map Prod.fst = t.handles
    rw [h.held]
    exact hb.fds
  · rw [Int.add_zero]
    exact hb.lists

/-- A handle is closed and forgotten. -/
theorem Balanced.close (hb : Balanced t) {s : Nat} (hs : s ∈ t.handles) :
    Balanced ⟨(t.enter a).close s, t.handles.filter (· ≠ s), false⟩ ∧
      ((t.enter a).close s).kernel.strays = t.sockets.kernel.strays := by
  have hmem : s ∈ (t.enter a).kernel.fds := by
    show s ∈ t.sockets.kernel.fds
    rw [hb.fds]
    exact hs
  obtain ⟨hheld, hstrays⟩ := Kernel.close_held hmem
  refine ⟨⟨?_, hb.nodup.filter _, hb.lists, fun hno => absurd hno (by simp)⟩, hstrays⟩
  show ((t.enter a).kernel.close s).held.map Prod.fst = _
  rw [hheld, ← hb.fds]
  unfold Kernel.fds
  rw [List.filter_map]
  rfl

theorem step_cases (hb : Balanced t) (hs : thread.step t a = some t') :
    Balanced t' ∧ (V6OnlySet t a → t'.sockets.kernel.strays = t.sockets.kernel.strays) ∧
      (¬ V6OnlySet t a → t'.sockets.kernel.strays ≠ []) := by
  change t.step a = some t' at hs
  unfold Thread.step at hs
  unfold V6OnlySet
  cases hcall : a.call with
  | opening o =>
    rw [hcall] at hs
    obtain rfl := Option.some.inj hs
    rcases o.run_cases (t.enter a) with ⟨hno, hends⟩ | ⟨⟨port, bindaddr, backlog, rfl, hyes⟩, σ, s, hr, ht, hstray⟩
    · obtain ⟨hb', hstrays⟩ := hb.ends hends
      refine ⟨hb', fun _ => hstrays, fun hrefused => ?_⟩
      cases o with
      | server port bindaddr af backlog =>
        by_cases haf : af = AF_INET6
        · subst haf
          have hset := hno port bindaddr backlog rfl
          simp [hset] at hrefused
        · simp [haf] at hrefused
      | connect addr port source flags => exact absurd trivial hrefused
      | unixConnect path nonblock => exact absurd trivial hrefused
      | unixServer path perm backlog => exact absurd trivial hrefused
      | accept s => exact absurd trivial hrefused
    · dsimp only
      rw [hr]
      refine ⟨hb.stray ht hstray, fun hset => absurd ⟨rfl, hyes⟩ hset, fun _ => ?_⟩
      show σ.kernel.strays ≠ []
      rw [hstray.strays]
      exact List.cons_ne_nil _ _
  | setting s e =>
    rw [hcall] at hs
    obtain rfl := Option.some.inj hs
    obtain ⟨hsame, htold⟩ := e.run_sets (t.enter a) s
    refine ⟨⟨hsame.fds.trans hb.fds, hb.nodup, hsame.lists.trans hb.lists, ?_⟩, fun _ => hsame.strays, by simp⟩
    intro hfailed
    apply htold
    simpa using hfailed
  | resolve host ip_only =>
    rw [hcall] at hs
    obtain rfl := Option.some.inj hs
    obtain ⟨σ, r, hr, h, htold⟩ := anetGenericResolve_cases (t.enter a) host ip_only
    dsimp only
    rw [hr]
    refine ⟨⟨?_, hb.nodup, ?_, ?_⟩, fun _ => h.kernel.strays, by simp⟩
    · show σ.kernel.held.map Prod.fst = t.handles
      rw [h.kernel.held]
      exact hb.fds
    · have hlists := h.lists
      rw [Int.add_zero] at hlists
      exact hlists.trans hb.lists
    · intro hfailed
      apply htold
      simpa using hfailed
  | close s =>
    rw [hcall] at hs
    dsimp only at hs
    by_cases hmem : s ∈ t.handles
    · rw [if_pos hmem] at hs
      obtain rfl := Option.some.inj hs
      obtain ⟨hb', hstrays⟩ := hb.close hmem
      exact ⟨hb', fun _ => hstrays, by simp⟩
    · rw [if_neg hmem] at hs
      exact absurd hs (by simp)

end Steps

theorem balanced_start (others : List Nat) : Balanced (.start others) :=
  ⟨rfl, List.nodup_nil, rfl, fun hno => absurd hno (by simp [Thread.start])⟩

/-- **The descriptors of the thread are its handles**, and every list of addresses is freed, in every state of every
run. -/
theorem handles_balanced (others : List Nat) (acts : List CallAct) : Always thread Balanced (.start others) acts := by
  apply always_of_reach
  · intro t ht
    refine ht.invariant ?_ ?_
    · rintro t ⟨others, rfl⟩
      exact balanced_start others
    · intro t a t' _ hb hs
      exact (step_cases hb hs).1
  · exact .init ⟨others, rfl⟩

/-- **The thread calls `close` on no number that is not its own exactly when `IPV6_V6ONLY` is never refused to one of its
servers.** -/
theorem handles_exact (others : List Nat) (acts : List CallAct) :
    Always thread OwnOnly (.start others) acts ↔ StepsOk thread V6OnlySet (.start others) acts := by
  refine always_iff_stepsOk (I := fun t => Balanced t ∧ OwnOnly t) ?_ ?_ ?_ ⟨balanced_start others, rfl⟩ acts
  · rintro t ⟨-, hown⟩
    exact hown
  · rintro t a t' ⟨hb, hown⟩ hok hs
    obtain ⟨hb', hkept, -⟩ := step_cases hb hs
    exact ⟨hb', (hkept hok).trans hown⟩
  · rintro t a t' ⟨hb, -⟩ hno hs
    exact (step_cases hb hs).2.2 hno

/-- A server is refused `IPV6_V6ONLY` for the descriptor 7.  Another thread opens its own 7 between the two calls of
`close`, and loses it. -/
example :
    (thread.exec (.start [3]) [⟨.opening (.server 6379 none AF_INET6 511), true,
      [⟨some 0, 0, [(serverQuery 6379 none AF_INET6, [⟨AF_INET6, []⟩])], [3]⟩, ⟨some 7, 0, [], [3]⟩, ⟨none, 92, [], [3]⟩, ⟨some 0, 0, [], [3]⟩,
        ⟨some 0, 0, [], [3, 7]⟩]⟩]).map
      (fun t => (t.sockets.kernel.others, t.sockets.kernel.strays, t.handles, t.failed)) = some ([3], [7], [], true) := by
  decide

end BeanRaft.Net
