import Mathlib.Data.Option.Basic

/-!
# BeanRaft.Lib.Lts — partial step functions, their runs, and conditions on the steps of a run

A system is a set of initial states and a partial step function `step s a`, where the action `a` carries every
choice of the environment and `none` means that `a` is not enabled in `s`.

* `exec`: the state after a list of actions.  `ReachBy ok`: the states of the runs whose steps all meet `ok`.
* `ReachBy.invariant`: the induction over a run.
* `Always P`, `StepsOk ok`: `P` in every state, `ok` at every step, of the run of a given list of actions.
* `always_iff_stepsOk`: when a step that meets `ok` keeps an invariant that gives `P`, and a step that does not
  meet `ok` ends in a state without `P`, then the condition `ok` is exact on every run.
-/

namespace BeanRaft.Lts

/-- Initial states and a partial step function over actions. -/
structure System (σ α : Type) where
  init : σ → Prop
  step : σ → α → Option σ

variable {σ α : Type} (M : System σ α)

/-- The state after the actions of a list, in order. -/
def System.exec (s : σ) : List α → Option σ
  | [] => some s
  | a :: acts => (M.step s a).bind fun s' => System.exec s' acts

/-- The states reached by the runs in which every step `(s, a)` meets `ok`. -/
inductive ReachBy (ok : σ → α → Prop) : σ → Prop
  | init {s : σ} (h : M.init s) : ReachBy ok s
  | step {s : σ} {a : α} {s' : σ} (h : ReachBy ok s) (hok : ok s a) (hs : M.step s a = some s') : ReachBy ok s'

/-- The reachable states. -/
def Reach : σ → Prop := ReachBy M fun _ _ => True

/-- `P` holds in every state of the run of the given actions. -/
def Always (P : σ → Prop) (s : σ) : List α → Prop
  | [] => P s
  | a :: acts => P s ∧ ∀ s', M.step s a = some s' → Always P s' acts

/-- `ok` holds at every step of the run of the given actions. -/
def StepsOk (ok : σ → α → Prop) (s : σ) : List α → Prop
  | [] => True
  | a :: acts => ∀ s', M.step s a = some s' → ok s a ∧ StepsOk ok s' acts

variable {M}

/-- The condition on the steps of a run can be evaluated when it can be on one step. -/
instance StepsOk.decidable {ok : σ → α → Prop} [∀ s a, Decidable (ok s a)] (s : σ) :
    ∀ acts : List α, Decidable (StepsOk M ok s acts)
  | [] => isTrue trivial
  | a :: acts =>
    match h : M.step s a with
    | none => isTrue fun s' hs' => by rw [h] at hs'; cases hs'
    | some s1 =>
      have : Decidable (StepsOk M ok s1 acts) := StepsOk.decidable s1 acts
      decidable_of_iff (ok s a ∧ StepsOk M ok s1 acts)
        ⟨fun hk s' hs' => by rw [h] at hs'; cases hs'; exact hk, fun hk => hk s1 h⟩

@[simp] theorem exec_nil (s : σ) : M.exec s [] = some s := rfl

@[simp] theorem exec_cons (s : σ) (a : α) (acts : List α) :
    M.exec s (a :: acts) = (M.step s a).bind fun s' => M.exec s' acts := rfl

theorem exec_append (s : σ) (acts bs : List α) :
    M.exec s (acts ++ bs) = (M.exec s acts).bind fun s' => M.exec s' bs := by
  induction acts generalizing s with
  | nil => rfl
  | cons a acts ih =>
    cases h : M.step s a with
    | none => simp [h]
    | some s' => simp [h, ih]

section Reach

variable {ok : σ → α → Prop}

theorem ReachBy.mono {ok' : σ → α → Prop} (hok : ∀ s a, ok s a → ok' s a) {s : σ} (h : ReachBy M ok s) :
    ReachBy M ok' s := by
  induction h with
  | init h => exact .init h
  | step _ ho hs ih => exact .step ih (hok _ _ ho) hs

theorem ReachBy.reach {s : σ} (h : ReachBy M ok s) : Reach M s := h.mono fun _ _ _ => trivial

/-- An invariant of the initial states that every step meeting `ok` keeps; the step may use what is already known
of every reachable state. -/
theorem ReachBy.invariant {I : σ → Prop} (h0 : ∀ s, M.init s → I s)
    (hstep : ∀ s a s', Reach M s → I s → ok s a → M.step s a = some s' → I s') {s : σ}
    (h : ReachBy M ok s) : I s := by
  induction h with
  | init h => exact h0 _ h
  | step hr ho hs ih => exact hstep _ _ _ hr.reach ih ho hs

theorem Reach.invariant {I : σ → Prop} (h0 : ∀ s, M.init s → I s)
    (hstep : ∀ s a s', Reach M s → I s → M.step s a = some s' → I s') {s : σ} (h : Reach M s) : I s :=
  ReachBy.invariant h0 (fun s a s' hr hi _ hs => hstep s a s' hr hi hs) h

theorem Reach.init {s : σ} (h : M.init s) : Reach M s := ReachBy.init h

theorem Reach.step {s s' : σ} {a : α} (h : Reach M s) (hs : M.step s a = some s') : Reach M s' :=
  ReachBy.step h trivial hs

theorem reach_exec {s s' : σ} (h : Reach M s) : ∀ {acts : List α}, M.exec s acts = some s' → Reach M s'
  | [], he => by cases he; exact h
  | a :: acts, he => by
    obtain ⟨s1, h1, h2⟩ := Option.bind_eq_some_iff.mp he
    exact reach_exec (h.step h1) h2

/-- The last state of a run whose steps all meet `ok`. -/
theorem reachBy_exec {s s' : σ} (h : ReachBy M ok s) :
    ∀ {acts : List α}, StepsOk M ok s acts → M.exec s acts = some s' → ReachBy M ok s'
  | [], _, he => by cases he; exact h
  | a :: acts, ho, he => by
    obtain ⟨s1, h1, h2⟩ := Option.bind_eq_some_iff.mp he
    obtain ⟨ha, hrest⟩ := ho s1 h1
    exact reachBy_exec (h.step ha h1) hrest h2

end Reach

section Runs

variable {ok : σ → α → Prop} {P I : σ → Prop}

theorem Always.head {s : σ} : ∀ {acts : List α}, Always M P s acts → P s
  | [], h => h
  | _ :: _, h => h.1

/-- `P` holds in the last state of a run in which it always holds. -/
theorem Always.exec {s s' : σ} : ∀ {acts : List α}, Always M P s acts → M.exec s acts = some s' → P s'
  | [], h, he => by cases he; exact h
  | a :: acts, h, he => by
    obtain ⟨s1, h1, h2⟩ := Option.bind_eq_some_iff.mp he
    exact Always.exec (h.2 s1 h1) h2

theorem always_of_stepsOk (hP : ∀ s, I s → P s)
    (hgood : ∀ s a s', I s → ok s a → M.step s a = some s' → I s') {s : σ} (hs : I s) :
    ∀ {acts : List α}, StepsOk M ok s acts → Always M P s acts
  | [], _ => hP s hs
  | _ :: _, h => ⟨hP s hs, fun s' hs' =>
      always_of_stepsOk hP hgood (hgood s _ s' hs (h s' hs').1 hs') (h s' hs').2⟩

/-- A condition on the actions alone. -/
theorem stepsOk_of_forall {good : α → Prop} : ∀ {acts : List α}, (∀ a ∈ acts, good a) → ∀ s : σ,
    StepsOk M (fun _ a => good a) s acts
  | [], _, _ => trivial
  | a :: _, h, _ => fun s' _ => ⟨h a List.mem_cons_self, stepsOk_of_forall (fun b hb => h b (List.mem_cons_of_mem _ hb)) s'⟩

/-- What holds in every reachable state holds all along every run. -/
theorem always_of_reach (hP : ∀ s, Reach M s → P s) {s : σ} (hs : Reach M s) : ∀ acts : List α, Always M P s acts
  | [] => hP s hs
  | _ :: acts => ⟨hP s hs, fun _ h => always_of_reach hP (hs.step h) acts⟩

/-- **The condition `ok` is exact**: `P` holds in every state of a run if and only if every step meets `ok`. -/
theorem always_iff_stepsOk (hP : ∀ s, I s → P s)
    (hgood : ∀ s a s', I s → ok s a → M.step s a = some s' → I s')
    (hbad : ∀ s a s', I s → ¬ ok s a → M.step s a = some s' → ¬ P s') {s : σ} (hs : I s) (acts : List α) :
    Always M P s acts ↔ StepsOk M ok s acts := by
  refine ⟨fun h => ?_, always_of_stepsOk hP hgood hs⟩
  induction acts generalizing s with
  | nil => trivial
  | cons a acts ih =>
    intro s' hs'
    have hP' := h.2 s' hs'
    have hok : ok s a := by
      by_contra hno
      exact hbad s a s' hs hno hs' hP'.head
    exact ⟨hok, ih (hgood s a s' hs hok hs') hP'⟩

end Runs

end BeanRaft.Lts
