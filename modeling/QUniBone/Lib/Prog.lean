import Mathlib.Order.Basic
import Mathlib.Tactic.Common

/-!
# Programs with state and exits

`EStateM ε σ` programs seen through the states they start and end in. The reasoning here is
about **two-state relations** `R : ℕ → σ → σ → Prop`: `R n s t` relates a start state to an end
state reached at a cost of at most `n`. A graded relation composes along `bind`, so a fact
about a long program is assembled from one fact per primitive, whether the program ends with
a value or leaves by an exit.

* `finalState`: the state a run ends in, by value or by exit.
* `Graded R`: the closure properties a two-state relation needs.
* `Within R n x`: every run of `x` is in `R n`, and its composition rules.
* `Leaves R E n x`: and what holds at its exits.
* `Triple P x Q E`: what holds after `x`, by its value and by its exit.
-/

namespace Prog

variable {ε σ α β : Type}

/-- The state a run ends in, whether it returned a value or left by an exit. -/
def finalState : EStateM.Result ε σ α → σ
  | .ok _ s => s
  | .error _ s => s

@[simp] theorem finalState_ok (a : α) (s : σ) :
    finalState (.ok a s : EStateM.Result ε σ α) = s := rfl

@[simp] theorem finalState_error (e : ε) (s : σ) :
    finalState (.error e s : EStateM.Result ε σ α) = s := rfl

/-- Run `x`, then apply `f` to the state on both ways out. -/
def finallyDo (x : EStateM ε σ α) (f : σ → σ) : EStateM ε σ α := fun s =>
  match x s with
  | .ok a t => .ok a (f t)
  | .error e t => .error e (f t)

/-- Run `x` if `c` holds. -/
def when (c : Prop) [Decidable c] (x : EStateM ε σ Unit) : EStateM ε σ Unit :=
  if c then x else pure ()

theorem finalState_finallyDo (x : EStateM ε σ α) (f : σ → σ) (s : σ) :
    finalState (finallyDo x f s) = f (finalState (x s)) := by
  unfold finallyDo
  cases x s <;> rfl

theorem bind_apply (x : EStateM ε σ α) (f : α → EStateM ε σ β) (s : σ) :
    (x >>= f) s = match x s with
      | .ok a t => f a t
      | .error e t => .error e t := rfl

theorem bind_ok {x : EStateM ε σ α} {s t : σ} {a : α} (f : α → EStateM ε σ β)
    (h : x s = .ok a t) : (x >>= f) s = f a t := by
  rw [bind_apply, h]

theorem bind_error {x : EStateM ε σ α} {s t : σ} {e : ε} (f : α → EStateM ε σ β)
    (h : x s = .error e t) : (x >>= f) s = .error e t := by
  rw [bind_apply, h]

/-- A run of `x >>= f` that returns a value ran `x` to a value first. -/
theorem ok_of_bind_ok {x : EStateM ε σ α} {f : α → EStateM ε σ β} {s u : σ} {b : β}
    (h : (x >>= f) s = .ok b u) : ∃ a t, x s = .ok a t ∧ f a t = .ok b u := by
  rw [bind_apply] at h
  cases hx : x s with
  | ok a t => exact ⟨a, t, rfl, by rwa [hx] at h⟩
  | error e t => rw [hx] at h; cases h

@[simp] theorem modify_apply (f : σ → σ) (s : σ) :
    (modify f : EStateM ε σ PUnit) s = .ok ⟨⟩ (f s) := rfl

/-! ## Graded two-state relations -/

/-- A two-state relation whose grade bounds a cost: doing nothing costs nothing, costs add up
along a run, and a larger bound is still a bound. -/
structure Graded (R : ℕ → σ → σ → Prop) : Prop where
  refl : ∀ s, R 0 s s
  trans : ∀ {m n s t u}, R m s t → R n t u → R (m + n) s u
  mono : ∀ {m n s t}, m ≤ n → R m s t → R n s t

/-- Every run of `x` ends in a state that `R` relates to its start at a cost of `n`. -/
def Within (R : ℕ → σ → σ → Prop) (n : ℕ) (x : EStateM ε σ α) : Prop :=
  ∀ s, R n s (finalState (x s))

namespace Graded

variable {R : ℕ → σ → σ → Prop}

theorem pure (hR : Graded R) (a : α) : Within R 0 (pure a : EStateM ε σ α) :=
  fun s => hR.refl s

theorem throw (hR : Graded R) (e : ε) : Within R 0 (throw e : EStateM ε σ α) :=
  fun s => hR.refl s

theorem get (hR : Graded R) : Within R 0 (get : EStateM ε σ σ) :=
  fun s => hR.refl s

/-- A larger bound, which for numerals is compared by evaluation. -/
theorem weaken (hR : Graded R) {m n : ℕ} (hmn : m.ble n = true) {x : EStateM ε σ α}
    (hx : Within R m x) : Within R n x :=
  fun s => hR.mono (Nat.le_of_ble_eq_true hmn) (hx s)

/-- Costs add up along `bind`; an exit of `x` skips `f`, which only makes the run cheaper. -/
theorem bind (hR : Graded R) {m n : ℕ} {x : EStateM ε σ α} {f : α → EStateM ε σ β}
    (hx : Within R m x) (hf : ∀ a, Within R n (f a)) : Within R (m + n) (x >>= f) := by
  intro s
  have hs := hx s
  rw [bind_apply]
  cases h : x s with
  | ok a t =>
      rw [h] at hs
      exact hR.trans hs (hf a t)
  | error e t =>
      rw [h] at hs
      exact hR.mono (Nat.le_add_right m n) hs

theorem modify {n : ℕ} {f : σ → σ} (h : ∀ s, R n s (f s)) :
    Within R n (modify f : EStateM ε σ PUnit) :=
  fun s => h s

theorem ite {n : ℕ} {c : Prop} [Decidable c] {x y : EStateM ε σ α}
    (hx : Within R n x) (hy : Within R n y) : Within R n (if c then x else y) := by
  split
  · exact hx
  · exact hy

theorem when (hR : Graded R) {n : ℕ} {c : Prop} [Decidable c] {x : EStateM ε σ Unit}
    (hx : Within R n x) : Within R n (when c x) :=
  ite hx fun s => hR.mono (Nat.zero_le n) (hR.refl s)

end Graded

/-! ## Exits -/

/-- Every run of `x` is in `R n`, and ends where `E` holds if it leaves by an exit. -/
structure Leaves (R : ℕ → σ → σ → Prop) (E : σ → Prop) (n : ℕ) (x : EStateM ε σ α) : Prop where
  within : Within R n x
  exits : ∀ s e t, x s = .error e t → E t

namespace Leaves

variable {R : ℕ → σ → σ → Prop} {E : σ → Prop}

theorem pure (hR : Graded R) (a : α) : Leaves R E 0 (pure a : EStateM ε σ α) :=
  ⟨hR.pure a, fun _ _ _ h => by cases h⟩

theorem modify {n : ℕ} {f : σ → σ} (h : ∀ s, R n s (f s)) :
    Leaves R E n (modify f : EStateM ε σ PUnit) :=
  ⟨h, fun _ _ _ h => by cases h⟩

theorem weaken (hR : Graded R) {m n : ℕ} (hmn : m.ble n = true) {x : EStateM ε σ α}
    (hx : Leaves R E m x) : Leaves R E n x :=
  ⟨hR.weaken hmn hx.within, hx.exits⟩

theorem bind (hR : Graded R) {m n : ℕ} {x : EStateM ε σ α} {f : α → EStateM ε σ β}
    (hx : Leaves R E m x) (hf : ∀ a, Leaves R E n (f a)) : Leaves R E (m + n) (x >>= f) := by
  refine ⟨hR.bind hx.within fun a => (hf a).within, fun s e u h => ?_⟩
  rw [bind_apply] at h
  cases hs : x s with
  | ok a t =>
    rw [hs] at h
    exact (hf a).exits t e u h
  | error e' t =>
    rw [hs] at h
    cases h
    exact hx.exits s _ _ hs

theorem ite {n : ℕ} {c : Prop} [Decidable c] {x y : EStateM ε σ α}
    (hx : Leaves R E n x) (hy : Leaves R E n y) : Leaves R E n (if c then x else y) := by
  split
  · exact hx
  · exact hy

theorem when (hR : Graded R) {n : ℕ} {c : Prop} [Decidable c] {x : EStateM ε σ Unit}
    (hx : Leaves R E n x) : Leaves R E n (when c x) :=
  ite hx ⟨fun s => hR.mono (Nat.zero_le n) (hR.refl s), fun _ _ _ h => by cases h⟩

end Leaves

/-- An ungraded relation, as a graded one whose costs are all the same. -/
def ungraded (R : σ → σ → Prop) : ℕ → σ → σ → Prop := fun _ => R

theorem graded_ungraded {R : σ → σ → Prop} (hrefl : ∀ s, R s s)
    (htrans : ∀ s t u, R s t → R t u → R s u) : Graded (ungraded R) where
  refl := hrefl
  trans := fun hst htu => htrans _ _ _ hst htu
  mono := fun _ h => h

/-! ## Triples -/

/-- Started where `P` holds, `x` returns where `Q` holds or leaves where `E` holds. -/
def Triple (P : σ → Prop) (x : EStateM ε σ α) (Q : α → σ → Prop) (E : σ → Prop) : Prop :=
  ∀ s, P s → match x s with
    | .ok a t => Q a t
    | .error _ t => E t

namespace Triple

variable {P : σ → Prop} {E : σ → Prop}

theorem bind {x : EStateM ε σ α} {f : α → EStateM ε σ β} {Q : α → σ → Prop} {S : β → σ → Prop}
    (hx : Triple P x Q E) (hf : ∀ a, Triple (Q a) (f a) S E) : Triple P (x >>= f) S E := by
  intro s hs
  have hxs := hx s hs
  rw [bind_apply]
  cases h : x s with
  | ok a t =>
      rw [h] at hxs
      exact hf a t hxs
  | error e t =>
      rw [h] at hxs
      exact hxs

theorem conseq {P' E' : σ → Prop} {x : EStateM ε σ α} {Q Q' : α → σ → Prop}
    (hx : Triple P x Q E) (hP : ∀ s, P' s → P s) (hQ : ∀ a s, Q a s → Q' a s)
    (hE : ∀ s, E s → E' s) : Triple P' x Q' E' := by
  intro s hs
  have hxs := hx s (hP s hs)
  cases h : x s with
  | ok a t =>
      rw [h] at hxs
      exact hQ a t hxs
  | error e t =>
      rw [h] at hxs
      exact hE t hxs

theorem modify {f : σ → σ} {Q : σ → Prop} (h : ∀ s, P s → Q (f s)) :
    Triple P (modify f : EStateM ε σ PUnit) (fun _ => Q) E :=
  fun s hs => h s hs

/-- An invariant as a two-state relation, as a triple. -/
theorem of_within {I : σ → Prop} {n : ℕ} {x : EStateM ε σ α}
    (hx : Within (ungraded fun s t => I s → I t) n x) : Triple I x (fun _ => I) I := by
  intro s hs
  have hxs := hx s hs
  cases h : x s <;> rwa [h] at hxs

end Triple

end Prog
