import QUniBone.Pru.Mailbox
import Mathlib.Tactic.IntervalCases

/-!
# Masks of requests and grants

A grant mask should have one bit at most. `SingleGrant` says so, the other facts read masks bit
by bit.
-/

namespace QUniBone

open PriorityArbitration

/-- No grant, or one. -/
def SingleGrant (g : Byte) : Prop := g = 0 ∨ ∃ n < 5, g = bit n

theorem getLsbD_zero (i : ℕ) : (0 : Byte).getLsbD i = false := by simp

theorem getLsbD_bit (n i : ℕ) (hn : n < 5) : (bit n).getLsbD i = decide (i = n) := by
  rw [bit, BitVec.getLsbD_twoPow]
  by_cases h : n = i
  · simp only [h, decide_true, Bool.and_true, decide_eq_true_eq]
    omega
  · simp [h, Ne.symm h]

theorem bit_ne_zero {n : ℕ} (hn : n < 5) : bit n ≠ 0 := by
  interval_cases n <;> decide

theorem and_not_zero (x : Byte) : x &&& ~~~(0 : Byte) = x := by
  rw [show ~~~(0 : Byte) = BitVec.allOnes 8 from rfl, BitVec.and_allOnes]

theorem SingleGrant.getLsbD_eq {g : Byte} (h : SingleGrant g) {i j : ℕ}
    (hi : g.getLsbD i = true) (hj : g.getLsbD j = true) : i = j := by
  rcases h with rfl | ⟨n, hn, rfl⟩
  · simp at hi
  · rw [getLsbD_bit n _ hn, decide_eq_true_eq] at hi hj
    rw [hi, hj]

theorem SingleGrant.and_mask {g : Byte} (h : SingleGrant g) : g &&& bitMask = g := by
  rcases h with rfl | ⟨n, hn, rfl⟩
  · rfl
  · apply BitVec.eq_of_getLsbD_eq
    intro i hi
    rw [BitVec.getLsbD_and, getLsbD_bit n _ hn]
    by_cases hin : i = n
    · subst hin
      simp only [decide_true, Bool.true_and]
      interval_cases i <;> rfl
    · simp [hin]

theorem and_bitNp_ne_zero (x : Byte) : x &&& bitNp ≠ 0 ↔ x.getLsbD 4 = true := by
  have hbit : bitNp = bit 4 := rfl
  rw [hbit, bit]
  constructor
  · intro h
    by_contra hc
    apply h
    apply BitVec.eq_of_getLsbD_eq
    intro i hi
    rw [BitVec.getLsbD_and, BitVec.getLsbD_twoPow, getLsbD_zero]
    by_cases h4 : 4 = i
    · subst h4
      simpa using hc
    · simp [h4]
  · intro h hc
    have h4 : (x &&& BitVec.twoPow 8 4).getLsbD 4 = false := by rw [hc, getLsbD_zero]
    rw [BitVec.getLsbD_and, BitVec.getLsbD_twoPow, h] at h4
    cases h4

theorem bitNp_getLsbD {n : ℕ} (hn : n < 4) : bitNp.getLsbD n = false := by
  interval_cases n <;> rfl

/-! ## Passing on and accepting

A grant is passed on where no request was signalled, and accepted where one was and is still
there. -/

/-- The grants passed on, with the mask `signalled` on the request lines. -/
def passedGrants (grants signalled : Byte) : Byte := grants &&& ~~~signalled

theorem getLsbD_passedGrants (grants signalled : Byte) (i : ℕ) :
    (passedGrants grants signalled).getLsbD i = (grants.getLsbD i && !signalled.getLsbD i) := by
  rw [passedGrants, BitVec.getLsbD_and, BitVec.getLsbD_not]
  by_cases hi : i < 8
  · simp [hi]
  · simp [BitVec.getLsbD_of_ge _ _ (Nat.le_of_not_lt hi)]

/-- What is granted, requested and not passed on was signalled. -/
theorem accepted_eq (grants requests signalled : Byte) :
    grants &&& requests &&& ~~~passedGrants grants signalled =
      grants &&& requests &&& signalled := by
  apply BitVec.eq_of_getLsbD_eq
  intro i hi
  rw [BitVec.getLsbD_and, BitVec.getLsbD_and, BitVec.getLsbD_and, BitVec.getLsbD_and,
    BitVec.getLsbD_not, getLsbD_passedGrants]
  cases grants.getLsbD i
  · simp
  · simp [hi]

end QUniBone
