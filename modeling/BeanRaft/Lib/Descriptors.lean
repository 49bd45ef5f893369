import Mathlib.Data.List.Basic

/-!
# BeanRaft.Lib.Descriptors — the descriptors of a thread among those of others

A process has one table of descriptors, and other threads open and close theirs between any two calls of this one.  A
call takes the kernel's next `KernelAnswer`: whether it succeeds, and what is open elsewhere by then.

* `openFd`, `change`, `close`: the calls.  A descriptor that is open is never handed out again.  `strays` are the
  descriptors that this thread closed although they were not its own.
* `Beside k0 l k`: the thread holds what it held in `k0` and the descriptors of `l`, and has closed no other's.
  `openFd_cases`, `change_cases`, `Beside.close`: what the calls do to `l`; `close_stray`: a descriptor that is closed
  twice is a stray one.
-/

namespace BeanRaft.Lib

/-- The answer to a call; `none` is a failure with this errno. -/
structure KernelAnswer (ρ : Type) where
  ret : Option Nat
  errno : Int
  data : ρ
  others : List Nat
  deriving DecidableEq, Repr

/-- The descriptors of this thread with what the kernel keeps of each, and those of the others. -/
structure Kernel (κ ρ : Type) where
  held : List (Nat × κ)
  others : List Nat
  strays : List Nat
  errno : Int
  answers : List (KernelAnswer ρ)
  deriving DecidableEq, Repr

namespace Kernel

variable {κ ρ : Type} [Inhabited ρ] (k : Kernel κ ρ)

/-- The descriptors that this thread holds. -/
def fds : List Nat := k.held.map Prod.fst

/-- The next answer, and the other threads as they are by then; every call fails when there are no more answers. -/
def next : KernelAnswer ρ × Kernel κ ρ :=
  match k.answers with
  | [] => (⟨none, 5, default, k.others⟩, k)
  | a :: answers => (a, { k with others := a.others.filter (· ∉ k.fds), answers := answers })

/-- A new descriptor, unless the call fails. -/
def openFd (attr : κ) : Kernel κ ρ × Option Nat :=
  match k.next with
  | (⟨none, errno, _, _⟩, k) => ({ k with errno := errno }, none)
  | (⟨some fd, errno, _, _⟩, k) =>
    if fd ∈ k.fds ∨ fd ∈ k.others then ({ k with errno := errno }, none)
    else ({ k with held := (fd, attr) :: k.held }, some fd)

/-- A call on a descriptor: what the kernel keeps of it becomes `f` of that, or `e` of it when the call fails. -/
def change (f : κ → κ) (e : Int → κ → κ) (fd : Nat) : Kernel κ ρ × Bool :=
  match k.next with
  | (⟨none, errno, _, _⟩, k) =>
    ({ k with errno := errno, held := k.held.map fun d => if d.1 = fd then (d.1, e errno d.2) else d }, false)
  | (⟨some _, _, _, _⟩, k) => ({ k with held := k.held.map fun d => if d.1 = fd then (d.1, f d.2) else d }, true)

/-- `close(fd)`; the descriptor is gone even when the call fails. -/
def close (fd : Nat) : Kernel κ ρ :=
  match k.next with
  | (a, k) =>
    let errno := if a.ret = none then a.errno else k.errno
    if fd ∈ k.fds then { k with errno := errno, held := k.held.filter fun d => d.1 ≠ fd }
    else { k with errno := errno, others := k.others.erase fd, strays := fd :: k.strays }

/-- The thread holds what it held in `k0` and the descriptors of `l`, and has closed none that was not its own.  The
answers are the last of those of `k0`. -/
structure Beside (k0 : Kernel κ ρ) (l : List (Nat × κ)) (k : Kernel κ ρ) : Prop where
  held : k.held = l ++ k0.held
  fresh : ∀ d ∈ l, d.1 ∉ k0.fds
  strays : k.strays = k0.strays
  answers : k.answers <:+ k0.answers

variable {k} {k0 : Kernel κ ρ} {l : List (Nat × κ)} {fd : Nat} {x attr : κ} {f : κ → κ} {e : Int → κ → κ}

omit [Inhabited ρ] in
theorem Beside.refl : Beside k [] k := ⟨rfl, by simp, rfl, List.suffix_refl _⟩

theorem next_answers : k.next.2.answers = k.answers.tail := by
  unfold next
  split
  · rename_i hnil
    rw [hnil]
    rfl
  · rename_i hcons
    rw [hcons]
    rfl

/-- Only the other threads move between two calls. -/
theorem Beside.next (h : Beside k0 l k) : Beside k0 l k.next.2 := by
  have hanswers : k.next.2.answers <:+ k0.answers := by
    rw [next_answers]
    exact (List.tail_suffix _).trans h.answers
  unfold Kernel.next at hanswers ⊢
  split at hanswers
  · exact ⟨h.held, h.fresh, h.strays, hanswers⟩
  · exact ⟨h.held, h.fresh, h.strays, hanswers⟩

theorem openFd_cases (h : Beside k0 [] k) (attr : κ) :
    ((k.openFd attr).2 = none ∧ Beside k0 [] (k.openFd attr).1) ∨
    ∃ fd, (k.openFd attr).2 = some fd ∧ Beside k0 [(fd, attr)] (k.openFd attr).1 := by
  have hnext := h.next
  unfold openFd
  rcases hk : k.next with ⟨⟨ret, errno, data, others⟩, k1⟩
  rw [hk] at hnext
  cases ret with
  | none => exact .inl ⟨rfl, hnext.held, hnext.fresh, hnext.strays, hnext.answers⟩
  | some fd =>
    by_cases hopen : fd ∈ k1.fds ∨ fd ∈ k1.others
    · dsimp only
      rw [if_pos hopen]
      exact .inl ⟨rfl, hnext.held, hnext.fresh, hnext.strays, hnext.answers⟩
    · dsimp only
      rw [if_neg hopen]
      refine .inr ⟨fd, rfl, ?_, ?_, hnext.strays, hnext.answers⟩
      · rw [hnext.held]
        rfl
      · intro d hd
        rw [List.mem_singleton.mp hd]
        intro hmem
        refine hopen (.inl ?_)
        unfold fds
        rw [hnext.held]
        exact hmem

/-- A call that fails with another errno than `EIO` has taken an answer. -/
theorem openFd_answers {errno : Int} (herrno : errno ≠ 5) (h : (k.openFd attr).1.errno = errno) :
    (k.openFd attr).1.answers.length < k.answers.length := by
  unfold openFd next at h ⊢
  rcases hk : k.answers with _ | ⟨⟨ret, errno', data, others⟩, answers⟩
  · rw [hk] at h
    exact absurd h.symm herrno
  · cases ret with
    | none => simp
    | some fd =>
      dsimp only
      split_ifs <;> simp

omit [Inhabited ρ] in
/-- A call on a descriptor leaves the others alone. -/
theorem Beside.map (h : Beside k0 [(fd, x)] k) (f : κ → κ) :
    (k.held.map fun d => if d.1 = fd then (d.1, f d.2) else d) = [(fd, f x)] ++ k0.held := by
  have hfresh := h.fresh (fd, x) (List.mem_singleton_self _)
  have hid : (k0.held.map fun d => if d.1 = fd then (d.1, f d.2) else d) = k0.held := by
    refine (List.map_congr_left fun d hd => ?_).trans (List.map_id _)
    have hne : d.1 ≠ fd := by
      rintro rfl
      exact hfresh (List.mem_map.mpr ⟨d, hd, rfl⟩)
    rw [if_neg hne]
    rfl
  rw [h.held, List.map_append, hid]
  simp

theorem change_cases (h : Beside k0 [(fd, x)] k) (f : κ → κ) (e : Int → κ → κ) :
    ((k.change f e fd).2 = true ∧ Beside k0 [(fd, f x)] (k.change f e fd).1) ∨
    ((k.change f e fd).2 = false ∧ Beside k0 [(fd, e (k.change f e fd).1.errno x)] (k.change f e fd).1) := by
  have hnext := h.next
  have hfresh : ∀ y : κ, ∀ d ∈ [(fd, y)], d.1 ∉ k0.fds := by
    intro y d hd
    rw [List.mem_singleton.mp hd]
    exact h.fresh (fd, x) (List.mem_singleton_self _)
  unfold change
  rcases hk : k.next with ⟨⟨ret, errno, data, others⟩, k1⟩
  rw [hk] at hnext
  cases ret with
  | none => exact .inr ⟨rfl, hnext.map (e errno), hfresh _, hnext.strays, hnext.answers⟩
  | some r => exact .inl ⟨rfl, hnext.map f, hfresh _, hnext.strays, hnext.answers⟩

/-- The descriptor is closed, and what was held before is held again. -/
theorem Beside.close (h : Beside k0 [(fd, x)] k) : Beside k0 [] (k.close fd) := by
  have hnext := h.next
  have hfresh := h.fresh (fd, x) (List.mem_singleton_self _)
  unfold Kernel.close
  rcases hk : k.next with ⟨a, k1⟩
  rw [hk] at hnext
  have hmem : fd ∈ k1.fds := by
    unfold fds
    rw [hnext.held]
    simp
  have hrest : (k0.held.filter fun d => d.1 ≠ fd) = k0.held := by
    refine List.filter_eq_self.mpr fun d hd => ?_
    have hne : d.1 ≠ fd := by
      rintro rfl
      exact hfresh (List.mem_map.mpr ⟨d, hd, rfl⟩)
    simpa using hne
  dsimp only
  rw [if_pos hmem]
  refine ⟨?_, by simp, hnext.strays, hnext.answers⟩
  show (k1.held.filter fun d => d.1 ≠ fd) = [] ++ k0.held
  rw [hnext.held, List.filter_append, hrest]
  simp

/-- A descriptor that is not held is closed: it may be one of another thread by then. -/
theorem close_stray (h : Beside k0 [] k) (hfd : fd ∉ k0.fds) :
    (k.close fd).held = k0.held ∧ (k.close fd).strays = fd :: k0.strays := by
  have hnext := h.next
  unfold close
  rcases hk : k.next with ⟨a, k1⟩
  rw [hk] at hnext
  have hmem : fd ∉ k1.fds := by
    unfold fds
    rw [hnext.held]
    exact hfd
  dsimp only
  rw [if_neg hmem]
  exact ⟨hnext.held, by rw [hnext.strays]⟩

/-- One of several descriptors is closed. -/
theorem close_held (hmem : fd ∈ k.fds) : (k.close fd).held = k.held.filter (fun d => d.1 ≠ fd) ∧
    (k.close fd).strays = k.strays := by
  have hnext := (Beside.refl (k := k)).next
  unfold close
  rcases hk : k.next with ⟨a, k1⟩
  rw [hk] at hnext
  have hmem1 : fd ∈ k1.fds := by
    unfold fds
    rw [hnext.held]
    exact hmem
  dsimp only
  rw [if_pos hmem1]
  refine ⟨?_, hnext.strays⟩
  show (k1.held.filter fun d => d.1 ≠ fd) = _
  rw [hnext.held, List.nil_append]

/-- A call on a descriptor opens and closes none. -/
theorem change_fds (f : κ → κ) (e : Int → κ → κ) (fd : Nat) :
    (k.change f e fd).1.fds = k.fds ∧ (k.change f e fd).1.strays = k.strays := by
  have hnext := (Beside.refl (k := k)).next
  have hfst : ∀ g : κ → κ, (k.held.map fun d => if d.1 = fd then (d.1, g d.2) else d).map Prod.fst = k.fds := by
    intro g
    rw [List.map_map]
    refine List.map_congr_left fun d _ => ?_
    show (if d.1 = fd then (d.1, g d.2) else d).1 = d.1
    split_ifs <;> rfl
  unfold change
  rcases hk : k.next with ⟨⟨ret, errno, data, others⟩, k1⟩
  rw [hk] at hnext
  have hheld : k1.held = k.held := hnext.held
  cases ret with
  | none =>
    refine ⟨?_, hnext.strays⟩
    show (k1.held.map _).map Prod.fst = _
    rw [hheld]
    exact hfst _
  | some r =>
    refine ⟨?_, hnext.strays⟩
    show (k1.held.map _).map Prod.fst = _
    rw [hheld]
    exact hfst _

end Kernel

end BeanRaft.Lib
