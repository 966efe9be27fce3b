import QUniBone.Disk.Dma
import Mathlib.Logic.Function.Basic

/-!
# The words that a DMA call moves

Memory is a function from the bus address of a word, a buffer one from the index.

* `answered`: how many words are transferred.
* `dato`, `dati`: memory and buffer after them.
-/

namespace QUniBone.Disk

abbrev Buffer := ℕ → BusWord

/-- How many of `n` words from `address` on are transferred: up to the first that does not
answer. -/
def answered (answers : ℕ → Bool) (address : ℕ) : ℕ → ℕ
  | 0 => 0
  | n + 1 =>
    if answered answers address n = n ∧ answers (address + 2 * n) = true then n + 1
    else answered answers address n

/-- Words of the buffer go to memory. -/
def dato (memory : ℕ → BusWord) (address : ℕ) (buffer : Buffer) : ℕ → (ℕ → BusWord)
  | 0 => memory
  | n + 1 => Function.update (dato memory address buffer n) (address + 2 * n) (buffer n)

/-- Words of memory come into the buffer. -/
def dati (memory : ℕ → BusWord) (address : ℕ) (buffer : Buffer) (n : ℕ) : Buffer := fun i =>
  if i < n then memory (address + 2 * i) else buffer i

variable {answers : ℕ → Bool} {address : ℕ}

theorem answered_le (address n : ℕ) : answered answers address n ≤ n := by
  induction n with
  | zero => exact le_refl 0
  | succ n ih =>
    unfold answered
    split <;> omega

/-- All words are transferred iff all addresses answer. -/
theorem answered_eq_iff {n : ℕ} :
    answered answers address n = n ↔ ∀ i < n, answers (address + 2 * i) = true := by
  induction n with
  | zero => simp [answered]
  | succ n ih =>
    have hle := @answered_le answers address n
    unfold answered
    split
    case isTrue h =>
      refine iff_of_true rfl fun i hi => ?_
      rcases Nat.lt_succ_iff_lt_or_eq.mp hi with hlt | heq
      · exact ih.mp h.1 i hlt
      · rw [heq]
        exact h.2
    case isFalse h =>
      refine iff_of_false (by omega) fun hall => h ⟨?_, hall n (Nat.lt_succ_self n)⟩
      exact ih.mpr fun i hi => hall i (Nat.lt_succ_of_lt hi)

/-- The words that are transferred answer. -/
theorem answers_of_lt_answered {n i : ℕ} (h : i < answered answers address n) :
    answers (address + 2 * i) = true := by
  induction n with
  | zero => exact absurd h (Nat.not_lt_zero i)
  | succ n ih =>
    unfold answered at h
    split at h
    case isTrue hall =>
      rcases Nat.lt_succ_iff_lt_or_eq.mp h with hlt | rfl
      · exact ih (by omega)
      · exact hall.2
    case isFalse => exact ih h

/-- The first that does not answer ends it. -/
theorem answered_eq_min {a : ℕ} (hall : ∀ i < a, answers (address + 2 * i) = true)
    (hnot : answers (address + 2 * a) = false) (n : ℕ) :
    answered answers address n = min n a := by
  induction n with
  | zero => exact (Nat.zero_min a).symm
  | succ n ih =>
    unfold answered
    rw [ih]
    rcases Nat.lt_trichotomy n a with hlt | rfl | hgt
    · rw [if_pos ⟨by omega, hall n hlt⟩]
      omega
    · rw [if_neg fun h => Bool.false_ne_true (hnot.symm.trans h.2)]
      omega
    · rw [if_neg (by omega)]
      omega

variable {memory : ℕ → BusWord} {buffer : Buffer} {n : ℕ}

theorem dato_at {i : ℕ} (h : i < n) : dato memory address buffer n (address + 2 * i) = buffer i := by
  induction n with
  | zero => omega
  | succ n ih =>
    rw [dato]
    rcases Nat.lt_succ_iff_lt_or_eq.mp h with hlt | rfl
    · rw [Function.update_of_ne (by omega), ih hlt]
    · rw [Function.update_self]

/-- A buffer moved in two calls -/
theorem dato_add (k n : ℕ) :
    dato (dato memory address buffer k) (address + 2 * k) (fun i => buffer (k + i)) n =
      dato memory address buffer (k + n) := by
  induction n with
  | zero => rfl
  | succ n ih =>
    have haddress : address + 2 * k + 2 * n = address + 2 * (k + n) := by omega
    rw [dato, ih, haddress, ← Nat.add_assoc, dato]

theorem dato_of_ne {a : ℕ} (h : ∀ i < n, a ≠ address + 2 * i) :
    dato memory address buffer n a = memory a := by
  induction n with
  | zero => rfl
  | succ n ih =>
    rw [dato, Function.update_of_ne (h n (Nat.lt_succ_self n))]
    exact ih fun i hi => h i (Nat.lt_succ_of_lt hi)

end QUniBone.Disk
