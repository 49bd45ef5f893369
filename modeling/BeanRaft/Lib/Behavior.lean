import Mathlib.Order.Monotone.Basic
import BeanRaft.Lib.Lts

/-!
# BeanRaft.Lib.Behavior — infinite behaviours and what they reach

* `Behavior M`: an infinite run of a system, with the action of each step.
* `Behavior.invariant`: the induction over a behaviour.
* `Behavior.Fair`: some of the `active` actions are taken again and again, unless `P` is reached.  No run is fair by
  itself: fairness is what is asked of the schedule.
* `Behavior.reaches`: a rank that no step raises and every active step lowers, until `P` holds, leads to `P`.
* `Behavior.leadsTo`: the same from some time on, for the steps of one behaviour and a `P` that may be about its actions.
  `Behavior.unbounded`: what rises again and again and never falls, rises above all bounds.
* `Behavior.cycle`: a run that goes round for ever.  `Behavior.cons`: a step before a behaviour.
-/

namespace BeanRaft.Lts

variable {σ α : Type}

/-- An infinite run. -/
structure Behavior (M : System σ α) where
  state : Nat → σ
  act : Nat → α
  step : ∀ i, M.step (state i) (act i) = some (state (i + 1))

namespace Behavior

variable {M : System σ α} (b : Behavior M)

/-- Until `P` holds, an action in `active` comes again after every time. -/
def Fair (active : α → Prop) (P : σ → Prop) : Prop := ∀ i, ∃ j, i ≤ j ∧ (active (b.act j) ∨ P (b.state j))

variable {b} {I P : σ → Prop} {p : α → Prop}

theorem invariant (h0 : I (b.state 0)) (hstep : ∀ s a s', I s → M.step s a = some s' → I s') (i : Nat) :
    I (b.state i) := by
  induction i with
  | zero => exact h0
  | succ i ih => exact hstep _ _ _ ih (b.step i)

/-- What a step keeps once it holds, holds from then on. -/
theorem stays (hstep : ∀ s a s', P s → M.step s a = some s' → P s') {i j : Nat} (hij : i ≤ j) (h : P (b.state i)) :
    P (b.state j) := by
  induction hij with
  | refl => exact h
  | step _ ih => exact hstep _ _ _ ih (b.step _)

/-- **Rank argument.**  `r` is the rank. -/
theorem reaches (r : σ → Nat) (h0 : I (b.state 0)) (hI : ∀ s a s', I s → M.step s a = some s' → I s')
    (hle : ∀ s a s', I s → ¬ P s → M.step s a = some s' → r s' ≤ r s)
    (hlt : ∀ s a s', I s → ¬ P s → p a → M.step s a = some s' → r s' < r s) (hfair : b.Fair p P) :
    ∃ i, P (b.state i) := by
  by_contra hno
  have hnot : ∀ i, ¬ P (b.state i) := fun i hi => hno ⟨i, hi⟩
  have hinv : ∀ i, I (b.state i) := invariant h0 hI
  have hdown : ∀ i j, i ≤ j → r (b.state j) ≤ r (b.state i) := by
    intro i j hij
    induction hij with
    | refl => exact Nat.le_refl _
    | step _ ih => exact Nat.le_trans (hle _ _ _ (hinv _) (hnot _) (b.step _)) ih
  -- induction on the rank: after every time it is lower once more
  have hend : ∀ n i, r (b.state i) ≤ n → False := by
    intro n
    induction n with
    | zero =>
      intro i hi
      obtain ⟨j, hij, hj⟩ := hfair i
      have hj' := hlt _ _ _ (hinv j) (hnot j) (hj.resolve_right (hnot j)) (b.step j)
      have := hdown i j hij
      omega
    | succ n ih =>
      intro i hi
      obtain ⟨j, hij, hj⟩ := hfair i
      have hj' := hlt _ _ _ (hinv j) (hnot j) (hj.resolve_right (hnot j)) (b.step j)
      have := hdown i j hij
      exact ih (j + 1) (by omega)
  exact hend _ 0 (Nat.le_refl _)

/-- **Rank argument along a behaviour**, from the time `i` on. -/
theorem leadsTo (r : σ → Nat) {P : Nat → Prop} {i : Nat}
    (hle : ∀ j, i ≤ j → ¬ P j → r (b.state (j + 1)) ≤ r (b.state j))
    (hlt : ∀ j, i ≤ j → ¬ P j → p (b.act j) → r (b.state (j + 1)) < r (b.state j))
    (hfair : ∀ j, i ≤ j → ∃ k, j ≤ k ∧ (p (b.act k) ∨ P k)) : ∃ j, i ≤ j ∧ P j := by
  by_contra hno
  have hnot : ∀ j, i ≤ j → ¬ P j := fun j hj hP => hno ⟨j, hj, hP⟩
  have hdown : AntitoneOn (fun j => r (b.state j)) {j | i ≤ j} :=
    antitoneOn_nat_Ici_of_succ_le fun j hj => hle j hj (hnot j hj)
  have hend : ∀ n j, i ≤ j → r (b.state j) = n → False := by
    intro n
    induction n using Nat.strong_induction_on with
    | _ n ih =>
      intro j hj hn
      obtain ⟨k, hjk, hk⟩ := hfair j hj
      have hik : i ≤ k := Nat.le_trans hj hjk
      have hlower := hlt k hik (hnot k hik) (hk.resolve_right (hnot k hik))
      have hbefore : r (b.state k) ≤ r (b.state j) := hdown hj hik hjk
      exact ih _ (by omega) (k + 1) (by omega) rfl
  exact hend _ i (Nat.le_refl _) rfl

/-- A number that never falls and rises again and again. -/
theorem unbounded (f : σ → Nat) {E : Nat → Prop} (hle : ∀ i, f (b.state i) ≤ f (b.state (i + 1)))
    (hlt : ∀ i, E i → f (b.state i) < f (b.state (i + 1))) (hagain : ∀ i, ∃ j, i ≤ j ∧ E j) (n : Nat) :
    ∃ i, n ≤ f (b.state i) := by
  have hup : Monotone fun i => f (b.state i) := monotone_nat_of_le_succ hle
  induction n with
  | zero => exact ⟨0, Nat.zero_le _⟩
  | succ n ih =>
    obtain ⟨i, hi⟩ := ih
    obtain ⟨j, hij, hE⟩ := hagain i
    have hrise := hlt j hE
    have hstay : f (b.state i) ≤ f (b.state j) := hup hij
    exact ⟨j + 1, by omega⟩

/-- A run that goes round for ever, through the states `0` to `n - 1`. -/
def cycle (n : Nat) (hn : 0 < n) (state : Nat → σ) (act : Nat → α)
    (step : ∀ i, i < n → M.step (state i) (act i) = some (state ((i + 1) % n))) : Behavior M where
  state i := state (i % n)
  act i := act (i % n)
  step i := by
    rw [← Nat.mod_add_mod]
    exact step _ (Nat.mod_lt _ hn)

/-- A run that goes round is fair when an active action is on its way. -/
theorem fair_cycle {n i : Nat} {hn : 0 < n} {state : Nat → σ} {act : Nat → α}
    {step : ∀ i, i < n → M.step (state i) (act i) = some (state ((i + 1) % n))} (hi : i < n) (hp : p (act i)) :
    (cycle n hn state act step).Fair p P := by
  intro j
  refine ⟨j * n + i, Nat.le_add_right_of_le (Nat.le_mul_of_pos_right j hn), .inl ?_⟩
  show p (act ((j * n + i) % n))
  rw [Nat.mul_add_mod_of_lt hi]
  exact hp

/-- A step before a behaviour. -/
def cons (b : Behavior M) (s : σ) (a : α) (h : M.step s a = some (b.state 0)) : Behavior M where
  state
    | 0 => s
    | i + 1 => b.state i
  act
    | 0 => a
    | i + 1 => b.act i
  step
    | 0 => h
    | i + 1 => b.step i

theorem fair_cons {s : σ} {a : α} {h : M.step s a = some (b.state 0)} (hfair : b.Fair p P) : (b.cons s a h).Fair p P := by
  intro i
  obtain ⟨j, hij, hj⟩ := hfair i
  exact ⟨j + 1, by omega, hj⟩

end Behavior

end BeanRaft.Lts
