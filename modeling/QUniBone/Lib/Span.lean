import Mathlib.Data.Nat.Notation
import Mathlib.Tactic.Common

/-!
# Spans

A row of `count` items, `width` bytes each, that begins at the address `start`. It is moved in
pieces of at most `size` items.

* `Within`: the row ends before a limit. An empty row lies anywhere.
* `piece`, `rest`: what is moved next, and what then remains.
-/

structure Span where
  start : ℕ
  count : ℕ

namespace Span

def Within (width limit : ℕ) (s : Span) : Prop :=
  s.count = 0 ∨ s.start + width * s.count ≤ limit

instance decidableWithin (width limit : ℕ) (s : Span) : Decidable (s.Within width limit) :=
  inferInstanceAs (Decidable (_ ∨ _))

def piece (size : ℕ) (s : Span) : Span := ⟨s.start, min size s.count⟩

def rest (width size : ℕ) (s : Span) : Span :=
  ⟨s.start + width * min size s.count, s.count - min size s.count⟩

variable {width size limit : ℕ} {s : Span}

theorem within_of_count (h : s.count = 0) : s.Within width limit := Or.inl h

theorem Within.end_le (h : s.Within width limit) (hpos : 0 < s.count) :
    s.start + width * s.count ≤ limit := by
  cases h with
  | inl hzero => omega
  | inr hle => exact hle

theorem Within.piece (h : s.Within width limit) (size : ℕ) :
    (s.piece size).Within width limit := by
  cases h with
  | inl hzero =>
    apply within_of_count
    show min size s.count = 0
    omega
  | inr hle =>
    right
    show s.start + width * min size s.count ≤ limit
    have hmin : width * min size s.count ≤ width * s.count :=
      Nat.mul_le_mul_left width (Nat.min_le_right size s.count)
    omega

theorem Within.rest (h : s.Within width limit) (size : ℕ) :
    (s.rest width size).Within width limit := by
  cases h with
  | inl hzero =>
    apply within_of_count
    show s.count - min size s.count = 0
    omega
  | inr hle =>
    right
    show s.start + width * min size s.count + width * (s.count - min size s.count) ≤ limit
    have hsplit : width * min size s.count + width * (s.count - min size s.count)
        = width * s.count := by
      rw [← Nat.mul_add, Nat.add_sub_cancel' (Nat.min_le_right size s.count)]
    omega

end Span
