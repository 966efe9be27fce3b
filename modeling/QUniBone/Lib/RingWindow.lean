import Mathlib.Tactic.Common
import Mathlib.Data.Nat.ModEq

/-!
# Windows of a ring

Two counters walk around a ring of `n` slots, the first never more than one round behind the
second. The slots between them are the window.

* `InWindow n lo hi i`: slot `i` is passed by the second counter only.
* `inWindow_next`, `inWindow_previous`: the slots next to the window are in it when it is full.
* `inWindow_push`, `inWindow_pop`: what a step of a counter changes.
-/

namespace RingWindow

variable {n lo hi i : ℕ}

def InWindow (n lo hi i : ℕ) : Prop := ∃ m, lo ≤ m ∧ m < hi ∧ m % n = i

/-- Counters less than a round apart have different slots. -/
theorem eq_of_mod_eq {a b : ℕ} (hab : a ≤ b) (hlt : b < a + n) (h : a % n = b % n) : a = b := by
  have hdvd : n ∣ b - a := (Nat.modEq_iff_dvd' hab).mp h
  have hzero : b - a = 0 := by
    apply Nat.eq_zero_of_dvd_of_lt hdvd
    omega
  omega

theorem inWindow_first : InWindow n lo hi (lo % n) ↔ lo < hi := by
  constructor
  · rintro ⟨m, hlo, hhi, -⟩
    omega
  · intro h
    exact ⟨lo, le_refl lo, h, rfl⟩

/-- The slot behind the window is in it when the window is the whole ring. -/
theorem inWindow_next (hpos : 0 < n) (hle : lo ≤ hi) (hn : hi ≤ lo + n) :
    InWindow n lo hi (hi % n) ↔ hi = lo + n := by
  constructor
  · rintro ⟨m, hlo, hhi, hmod⟩
    by_contra hne
    have heq : m = hi := eq_of_mod_eq hhi.le (by omega) hmod
    omega
  · rintro rfl
    exact ⟨lo, le_refl lo, by omega, (Nat.add_mod_right lo n).symm⟩

/-- And so is the slot before it. -/
theorem inWindow_previous (hpos : 0 < n) (hle : lo ≤ hi) (hn : hi ≤ lo + n) :
    InWindow n lo hi ((lo + n - 1) % n) ↔ hi = lo + n := by
  constructor
  · rintro ⟨m, hlo, hhi, hmod⟩
    by_contra hne
    have heq : m = lo + n - 1 := eq_of_mod_eq (by omega) (by omega) hmod
    omega
  · rintro rfl
    exact ⟨lo + n - 1, by omega, by omega, rfl⟩

theorem inWindow_push (hle : lo ≤ hi) :
    InWindow n lo (hi + 1) i ↔ InWindow n lo hi i ∨ i = hi % n := by
  constructor
  · rintro ⟨m, hlo, hhi, hmod⟩
    by_cases hm : m = hi
    · exact .inr (hm ▸ hmod.symm)
    · exact .inl ⟨m, hlo, by omega, hmod⟩
  · rintro (⟨m, hlo, hhi, hmod⟩ | rfl)
    · exact ⟨m, hlo, by omega, hmod⟩
    · exact ⟨hi, hle, by omega, rfl⟩

theorem inWindow_pop (hn : hi ≤ lo + n) :
    InWindow n (lo + 1) hi i ↔ InWindow n lo hi i ∧ i ≠ lo % n := by
  constructor
  · rintro ⟨m, hlo, hhi, hmod⟩
    refine ⟨⟨m, by omega, hhi, hmod⟩, fun hi' => ?_⟩
    have heq : lo = m := eq_of_mod_eq (by omega) (by omega) (hi' ▸ hmod).symm
    omega
  · rintro ⟨⟨m, hlo, hhi, hmod⟩, hne⟩
    refine ⟨m, ?_, hhi, hmod⟩
    by_contra hm
    have heq : m = lo := by omega
    exact hne (heq ▸ hmod.symm)

theorem inWindow_full (hpos : 0 < n) : InWindow n 0 n i ↔ i < n := by
  constructor
  · rintro ⟨m, -, -, rfl⟩
    exact Nat.mod_lt m hpos
  · intro h
    exact ⟨i, Nat.zero_le i, h, Nat.mod_eq_of_lt h⟩

theorem not_inWindow_empty : ¬ InWindow n lo lo i := by
  rintro ⟨m, hlo, hhi, -⟩
  omega

end RingWindow
