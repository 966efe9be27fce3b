import Mathlib.Logic.Relation
import Mathlib.Order.WellFounded
import Mathlib.Tactic.Common

/-!
# Loops

A loop body `f : σ → ρ ⊕ σ` maps the state at the top of a round either to a result or to the
state at the top of the next round. Nothing says that the loop ends.

* `Loop.run f n s`: the result, if at most `n` rounds give one.
* `Loop.Reaches f s t`: from `s` some number of rounds leads to the top of a round at `t`.
* `Loop.result_of_invariant`, `Loop.not_returns_of_invariant`: the invariant rules.
* `Loop.returns_iff_not_forever`: a loop whose rounds decrease a measure, a special kind of
  round apart, returns iff it does not end up with that kind of round for ever.
-/

namespace Loop

variable {σ ρ : Type*} (f : σ → ρ ⊕ σ)

/-- The result of the loop from `s`, if it takes at most `n` rounds. -/
def run : ℕ → σ → Option ρ
  | 0, _ => none
  | n + 1, s =>
    match f s with
    | .inl r => some r
    | .inr t => run n t

/-- The loop started in `s` ends, with `r`. -/
def Returns (s : σ) (r : ρ) : Prop := ∃ n, run f n s = some r

/-- `t` is the top of a round of the loop started in `s`. -/
def Reaches : σ → σ → Prop := Relation.ReflTransGen fun s t => f s = .inr t

variable {f}

theorem run_of_inl {s : σ} {r : ρ} (h : f s = .inl r) (n : ℕ) : run f (n + 1) s = some r := by
  rw [run, h]

theorem run_of_inr {s t : σ} (h : f s = .inr t) (n : ℕ) : run f (n + 1) s = run f n t := by
  rw [run, h]

theorem returns_of_inl {s : σ} {r : ρ} (h : f s = .inl r) : Returns f s r :=
  ⟨1, run_of_inl h 0⟩

theorem returns_of_inr {s t : σ} {r : ρ} (h : f s = .inr t) (ht : Returns f t r) :
    Returns f s r := by
  obtain ⟨n, hn⟩ := ht
  exact ⟨n + 1, by rw [run_of_inr h, hn]⟩

/-- One more round of fuel does not change a result. -/
theorem run_succ {n : ℕ} {s : σ} {r : ρ} (h : run f n s = some r) : run f (n + 1) s = some r := by
  induction n generalizing s with
  | zero => cases h
  | succ n ih =>
      cases hf : f s with
      | inl r' => rwa [run_of_inl hf] at h ⊢
      | inr t =>
          rw [run_of_inr hf] at h ⊢
          exact ih h

theorem run_mono {m n : ℕ} (hmn : m ≤ n) {s : σ} {r : ρ} (h : run f m s = some r) :
    run f n s = some r := by
  induction hmn with
  | refl => exact h
  | step _ ih => exact run_succ ih

theorem Returns.unique {s : σ} {r r' : ρ} (h : Returns f s r) (h' : Returns f s r') : r = r' := by
  obtain ⟨m, hm⟩ := h
  obtain ⟨n, hn⟩ := h'
  have hm := run_mono (Nat.le_max_left m n) hm
  have hn := run_mono (Nat.le_max_right m n) hn
  rw [hm] at hn
  exact Option.some.inj hn

theorem returns_iff_of_inr {s t : σ} {r : ρ} (h : f s = .inr t) :
    Returns f s r ↔ Returns f t r := by
  constructor
  · rintro ⟨n, hn⟩
    cases n with
    | zero => cases hn
    | succ n => exact ⟨n, by rwa [run_of_inr h] at hn⟩
  · exact returns_of_inr h

/-- A loop returns what it returns from any round it comes through. -/
theorem Reaches.returns_iff {s t : σ} (h : Reaches f s t) {r : ρ} :
    Returns f s r ↔ Returns f t r := by
  induction h with
  | refl => rfl
  | tail _ hstep ih => rw [ih, returns_iff_of_inr hstep]

/-- The last round of a loop which returns. -/
theorem Returns.last {s : σ} {r : ρ} (h : Returns f s r) :
    ∃ t, Reaches f s t ∧ f t = .inl r := by
  obtain ⟨n, hn⟩ := h
  induction n generalizing s with
  | zero => cases hn
  | succ n ih =>
      cases hf : f s with
      | inl r' =>
          rw [run_of_inl hf] at hn
          cases hn
          exact ⟨s, .refl, hf⟩
      | inr t =>
          rw [run_of_inr hf] at hn
          obtain ⟨u, htu, hu⟩ := ih hn
          exact ⟨u, .head hf htu, hu⟩

/-! ## Invariants -/

/-- An invariant of the rounds holds at the top of every round. -/
theorem Reaches.invariant {I : σ → Prop} (hround : ∀ s t, I s → f s = .inr t → I t) {s t : σ}
    (h : Reaches f s t) (hs : I s) : I t := by
  induction h with
  | refl => exact hs
  | tail _ hstep ih => exact hround _ _ ih hstep

/-- An invariant of the rounds, and what it says about a result. -/
theorem Returns.of_invariant {I : σ → Prop} {Q : ρ → Prop}
    (hround : ∀ s t, I s → f s = .inr t → I t) (hdone : ∀ s r, I s → f s = .inl r → Q r)
    {s : σ} {r : ρ} (h : Returns f s r) (hs : I s) : Q r := by
  obtain ⟨t, hst, ht⟩ := h.last
  exact hdone t r (hst.invariant hround hs) ht

/-- An invariant which lets no round end the loop. -/
theorem not_returns_of_invariant {I : σ → Prop} (hround : ∀ s, I s → ∃ t, f s = .inr t ∧ I t)
    {s : σ} (hs : I s) (r : ρ) : ¬Returns f s r := by
  intro h
  obtain ⟨t, hst, ht⟩ := h.last
  have hI : I t := by
    refine hst.invariant (fun s t hI hstep => ?_) hs
    obtain ⟨u, hu, hIu⟩ := hround s hI
    rw [hu] at hstep
    cases hstep
    exact hIu
  obtain ⟨u, hu, -⟩ := hround t hI
  rw [hu] at ht
  cases ht

/-! ## Returning -/

/-- Rounds of kind `E` may repeat, all others make a measure smaller, which the rounds of kind
`E` do not make larger. The loop then returns iff every round it comes to is followed, at once
or later, by one that is not of kind `E`. -/
theorem returns_iff_not_forever {E : σ → Prop} {μ : σ → ℕ} {s : σ}
    (hE : ∀ t u, Reaches f s t → E t → f t = .inr u → μ u ≤ μ t)
    (hnot : ∀ t u, Reaches f s t → ¬E t → f t = .inr u → μ u < μ t)
    (hdone : ∀ t r, f t = .inl r → ¬E t) :
    (∃ r, Returns f s r) ↔ ∀ t, Reaches f s t → ∃ u, Reaches f t u ∧ ¬E u := by
  constructor
  · rintro ⟨r, hr⟩ t hst
    obtain ⟨u, htu, hu⟩ := (hst.returns_iff.mp hr).last
    exact ⟨u, htu, hdone u r hu⟩
  · intro hfair
    have hle : ∀ t u, Reaches f s t → Reaches f t u → μ u ≤ μ t := by
      intro t u hst htu
      induction htu with
      | refl => exact le_rfl
      | @tail v w htv hstep ih =>
          have hsv := hst.trans htv
          by_cases hv : E v
          · exact (hE v w hsv hv hstep).trans ih
          · exact (hnot v w hsv hv hstep).le.trans ih
    -- by induction on the measure of a round the loop comes to
    have key : ∀ n t, μ t = n → Reaches f s t → ∃ r, Returns f t r := by
      intro n
      induction n using Nat.strong_induction_on with
      | _ n ih =>
          intro t hn hst
          obtain ⟨u, htu, hu⟩ := hfair t hst
          have hut := hle t u hst htu
          cases hf : f u with
          | inl r => exact ⟨r, htu.returns_iff.mpr (returns_of_inl hf)⟩
          | inr v =>
              have hvu := hnot u v (hst.trans htu) hu hf
              obtain ⟨r, hr⟩ := ih (μ v) (by omega) v rfl ((hst.trans htu).tail hf)
              exact ⟨r, Reaches.returns_iff (htu.tail hf) |>.mpr hr⟩
    exact key (μ s) s rfl .refl

end Loop
