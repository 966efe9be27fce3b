import Mathlib.Data.List.Pairwise
import Mathlib.Data.Set.Operations
import Mathlib.Order.Monotone.Monovary

/-!
# Strict weak orders on a list

What `std::sort` asks of a comparison: irreflexive, asymmetric, transitive, and so is being
incomparable, over the elements of the range.

* `StrictWeakOn`: a comparison is a strict weak order on a list.
* `strictWeakOn_ltByKeys_iff`: comparing by one key or by another is one only if the keys agree.
* `stdSort`: `std::sort`, which is undefined for other comparisons.
-/

namespace QUniBone

variable {α β γ : Type}

/-- No two elements are ordered by `lt`. -/
def Incomparable (lt : α → α → Bool) (a b : α) : Prop := lt a b = false ∧ lt b a = false

structure StrictWeakOn (lt : α → α → Bool) (l : List α) : Prop where
  irrefl : ∀ a ∈ l, lt a a = false
  asymm : ∀ a ∈ l, ∀ b ∈ l, lt a b → lt b a = false
  trans : ∀ a ∈ l, ∀ b ∈ l, ∀ c ∈ l, lt a b → lt b c → lt a c
  incomparable_trans : ∀ a ∈ l, ∀ b ∈ l, ∀ c ∈ l,
    Incomparable lt a b → Incomparable lt b c → Incomparable lt a c

instance decidableIncomparable (lt : α → α → Bool) (a b : α) : Decidable (Incomparable lt a b) :=
  inferInstanceAs (Decidable (_ ∧ _))

instance decidableStrictWeakOn (lt : α → α → Bool) (l : List α) : Decidable (StrictWeakOn lt l) :=
  decidable_of_iff
    ((∀ a ∈ l, lt a a = false) ∧ (∀ a ∈ l, ∀ b ∈ l, lt a b → lt b a = false) ∧
      (∀ a ∈ l, ∀ b ∈ l, ∀ c ∈ l, lt a b → lt b c → lt a c) ∧
      ∀ a ∈ l, ∀ b ∈ l, ∀ c ∈ l, Incomparable lt a b → Incomparable lt b c → Incomparable lt a c)
    ⟨fun h => ⟨h.1, h.2.1, h.2.2.1, h.2.2.2⟩,
      fun h => ⟨h.irrefl, h.asymm, h.trans, h.incomparable_trans⟩⟩

/-- The elements of a list -/
def elements (l : List α) : Set α := {a | a ∈ l}

section Keys

variable [LinearOrder β] [LinearOrder γ] {f : α → β} {g : α → γ} {l : List α}

/-- Lower in one key or in the other -/
def ltByKeys (f : α → β) (g : α → γ) (a b : α) : Bool := f a < f b ∨ g a < g b

theorem ltByKeys_iff {a b : α} : ltByKeys f g a b ↔ f a < f b ∨ g a < g b := by
  simp [ltByKeys]

theorem ltByKeys_eq_false_iff {a b : α} : ltByKeys f g a b = false ↔ f b ≤ f a ∧ g b ≤ g a := by
  simp [ltByKeys]

/-- With keys that agree, the comparison is the one of pairs. -/
theorem strictWeakOn_ltByKeys (h : MonovaryOn g f (elements l)) :
    StrictWeakOn (ltByKeys f g) l where
  irrefl a _ := by simp [ltByKeys]
  asymm a ha b hb hab := by
    have hab' := h ha hb
    have hba' := h hb ha
    rw [ltByKeys_iff] at hab
    rw [ltByKeys_eq_false_iff]
    grind
  trans a ha b hb c hc hab hbc := by
    have hcb' := h hc hb
    have hba' := h hb ha
    rw [ltByKeys_iff] at *
    grind
  incomparable_trans a _ b _ c _ hab hbc := by
    simp only [Incomparable, ltByKeys_eq_false_iff] at *
    grind

/-- Comparing by one key or by another is a strict weak order iff no two elements are ordered by
the keys in opposite ways. -/
theorem strictWeakOn_ltByKeys_iff :
    StrictWeakOn (ltByKeys f g) l ↔ MonovaryOn g f (elements l) := by
  constructor
  · intro h a ha b hb hlt
    have hba := h.asymm a ha b hb (ltByKeys_iff.mpr (Or.inl hlt))
    exact (ltByKeys_eq_false_iff.mp hba).2
  · exact strictWeakOn_ltByKeys

/-- A list in ascending order of both keys has keys that agree. -/
theorem monovaryOn_of_pairwise (hf : l.Pairwise (f · ≤ f ·)) (hg : l.Pairwise (g · ≤ g ·)) :
    MonovaryOn g f (elements l) := by
  have hordered := hf.and hg
  have hahead : l.Pairwise fun a b => f a < f b → g a ≤ g b :=
    hordered.imp fun h _ => h.2
  -- no element has a lower key than one before it
  have hbehind : l.Pairwise (flip fun a b => f a < f b → g a ≤ g b) :=
    hordered.imp fun h hlt => absurd h.1 (not_le.mpr hlt)
  intro a ha b hb
  exact List.Pairwise.forall_of_forall_of_flip (fun a _ => by simp) hahead hbehind ha hb

end Keys

/-! ## `std::sort` -/

/-- `std::sort`: a permutation in order, undefined for a comparison that is no strict weak
order. -/
def stdSort (lt : α → α → Bool) (l : List α) : Option (List α) :=
  if StrictWeakOn lt l then some (l.mergeSort fun a b => !lt b a) else none

theorem stdSort_of_strictWeakOn {lt : α → α → Bool} {l : List α} (h : StrictWeakOn lt l) :
    stdSort lt l = some (l.mergeSort fun a b => !lt b a) := by
  simp [stdSort, h]

theorem strictWeakOn_of_stdSort {lt : α → α → Bool} {l l' : List α} (h : stdSort lt l = some l') :
    StrictWeakOn lt l := by
  by_contra hlt
  simp [stdSort, hlt] at h

end QUniBone
