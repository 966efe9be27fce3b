import Mathlib.Tactic.Common

/-!
# Transition systems

States reached from initial states by a step relation. A result about the runs all of whose
steps meet a condition is a result about the relation restricted to it.

* `Reachable init step`: the states reached.
* `Reachable.invariant`: what holds initially and is preserved holds of them all.
* `run`, `guarded`: runs by a list of actions, which lead to reachable states.
-/

namespace Transition

variable {σ : Type*}

/-- The states reached from `init` by `step`. -/
inductive Reachable (init : σ → Prop) (step : σ → σ → Prop) : σ → Prop
  | init {s : σ} : init s → Reachable init step s
  | step {s t : σ} : Reachable init step s → step s t → Reachable init step t

variable {init : σ → Prop} {step : σ → σ → Prop}

theorem Reachable.invariant {I : σ → Prop} (hinit : ∀ s, init s → I s)
    (hstep : ∀ s t, I s → step s t → I t) {s : σ} (h : Reachable init step s) : I s := by
  induction h with
  | init hs => exact hinit _ hs
  | step _ hst ih => exact hstep _ _ ih hst

/-- An invariant whose preservation may use that the state is reached. -/
theorem Reachable.invariant' {I : σ → Prop} (hinit : ∀ s, init s → I s)
    (hstep : ∀ s t, Reachable init step s → I s → step s t → I t) {s : σ}
    (h : Reachable init step s) : I s := by
  induction h with
  | init hs => exact hinit _ hs
  | step hs hst ih => exact hstep _ _ hs ih hst

theorem Reachable.mono {step' : σ → σ → Prop} (h : ∀ s t, step s t → step' s t) {s : σ}
    (hs : Reachable init step s) : Reachable init step' s := by
  induction hs with
  | init hs => exact .init hs
  | step _ hst ih => exact ih.step (h _ _ hst)

/-! ## Runs by actions -/

variable {α : Type*}

/-- The state after the actions of a list. -/
def run (next : σ → α → Option σ) (s : σ) : List α → Option σ
  | [] => some s
  | a :: as => (next s a).bind (run next · as)

theorem run_append (next : σ → α → Option σ) (s : σ) (as bs : List α) :
    run next s (as ++ bs) = (run next s as).bind (run next · bs) := by
  induction as generalizing s with
  | nil => rfl
  | cons a as ih =>
    show (next s a).bind (run next · (as ++ bs)) = _
    simp only [ih]
    exact (Option.bind_assoc _ _ _).symm

theorem Reachable.run {next : σ → α → Option σ} {s t : σ} {as : List α}
    (hnext : ∀ s a t, next s a = some t → step s t) (h : Reachable init step s)
    (hrun : run next s as = some t) : Reachable init step t := by
  induction as generalizing s with
  | nil =>
    obtain rfl := Option.some.inj hrun
    exact h
  | cons a as ih =>
    obtain ⟨u, hu, hrest⟩ := Option.bind_eq_some_iff.mp hrun
    exact ih (h.step (hnext s a u hu)) hrest

/-- Only actions that meet a condition are taken. -/
def guarded (p : σ → α → Prop) [∀ s a, Decidable (p s a)] (next : σ → α → Option σ) (s : σ)
    (a : α) : Option σ :=
  if p s a then next s a else none

theorem guarded_eq_some {p : σ → α → Prop} [∀ s a, Decidable (p s a)]
    {next : σ → α → Option σ} {s t : σ} {a : α} :
    guarded p next s a = some t ↔ p s a ∧ next s a = some t := by
  rw [guarded, Option.ite_none_right_eq_some]

/-- A guarded run reaches a state of the relation restricted to the condition. -/
theorem reachable_of_guarded {p : σ → α → Prop} [∀ s a, Decidable (p s a)]
    {next : σ → α → Option σ} {s t : σ} {as : List α} (hinit : init s)
    (hrun : run (guarded p next) s as = some t) :
    Reachable init (fun s t => ∃ a, p s a ∧ next s a = some t) t :=
  Reachable.run (fun _ a _ h => ⟨a, guarded_eq_some.mp h⟩) (.init hinit) hrun

end Transition
