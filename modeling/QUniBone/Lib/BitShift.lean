import Mathlib.Data.BitVec
import Mathlib.Tactic.Common

/-!
# Shifts bit by bit

A shift by `n` is `n` shifts by one bit. On the way are seen the last bit that is lost, and
whether the sign has changed.

* `OneBit`: a shift by one bit.
* `run`: so many of them, one after the other.
* `run_left` and the others: what they are all together.
-/

namespace BitShift

variable {w : ℕ}

structure OneBit (w : ℕ) where
  next : BitVec w → BitVec w
  lost : BitVec w → Bool
  /-- does the sign change? -/
  changes : BitVec w → Bool

structure Shifted (w : ℕ) where
  value : BitVec w
  /-- the last bit lost -/
  carry : Bool
  overflow : Bool

namespace OneBit

def run (o : OneBit w) (x : BitVec w) : ℕ → Shifted w
  | 0 => ⟨x, false, false⟩
  | n + 1 =>
    let r := o.run x n
    ⟨o.next r.value, o.lost r.value, r.overflow || o.changes r.value⟩

def left : OneBit w where
  next x := x <<< 1
  lost x := x.msb
  changes x := (x <<< 1).msb != x.msb

def right : OneBit w where
  next x := x >>> 1
  lost x := x.getLsbD 0
  changes x := (x >>> 1).msb != x.msb

/-- The sign stays where it is. The bit after it is lost; it would have become the sign. -/
def arithmeticLeft : OneBit w where
  next x := bif x.msb then x <<< 1 ||| BitVec.intMin w else x <<< 1 &&& ~~~BitVec.intMin w
  lost x := x.getMsbD 1
  changes x := (x <<< 1).msb != x.msb

def arithmeticRight : OneBit w where
  next x := x.sshiftRight 1
  lost x := x.getLsbD 0
  changes x := (x.sshiftRight 1).msb != x.msb

variable {o : OneBit w} {x : BitVec w}

theorem run_overflow {n : ℕ} :
    (o.run x n).overflow = true ↔ ∃ k < n, o.changes (o.run x k).value = true := by
  induction n with
  | zero => simp [run]
  | succ n ih =>
    simp only [run, Bool.or_eq_true, ih, Nat.exists_lt_succ_right]

end OneBit

/-- Neighbours that are all equal are all like the last one. -/
theorem exists_ne_succ_iff {f : ℕ → Bool} {n : ℕ} :
    (∃ k < n, f (k + 1) ≠ f k) ↔ ∃ k < n, f k ≠ f n := by
  induction n with
  | zero => simp
  | succ n ih =>
    rw [Nat.exists_lt_succ_right, ih, Nat.exists_lt_succ_right]
    by_cases hlast : f (n + 1) = f n
    · rw [hlast]
    · refine iff_of_true (.inr hlast) (.inr (Ne.symm hlast))

open OneBit

variable {x : BitVec w} {n : ℕ}

/-! ## To the left -/

theorem msb_shiftLeft (x : BitVec w) (n : ℕ) : (x <<< n).msb = x.getMsbD n := by
  rw [BitVec.msb, BitVec.getMsbD_shiftLeft, Nat.zero_add]

theorem left_value : (left.run x n).value = x <<< n := by
  induction n with
  | zero => simp [run]
  | succ n ih =>
    show (left.run x n).value <<< 1 = _
    rw [ih, BitVec.shiftLeft_add]

theorem left_carry : (left.run x (n + 1)).carry = x.getMsbD n := by
  show (left.run x n).value.msb = _
  rw [left_value, msb_shiftLeft]

theorem left_overflow :
    (left.run x n).overflow = true ↔ ∃ k < n, x.getMsbD k ≠ x.getMsbD n := by
  rw [run_overflow, ← exists_ne_succ_iff]
  refine exists_congr fun k => and_congr_right fun _ => ?_
  show (((left.run x k).value <<< 1).msb != (left.run x k).value.msb) = true ↔ _
  rw [left_value, ← BitVec.shiftLeft_add, msb_shiftLeft, msb_shiftLeft, bne_iff_ne]

/-! ## To the right -/

theorem right_value : (right.run x n).value = x >>> n := by
  induction n with
  | zero => simp [run]
  | succ n ih =>
    show (right.run x n).value >>> 1 = _
    rw [ih, BitVec.shiftRight_add]

theorem right_carry : (right.run x (n + 1)).carry = x.getLsbD n := by
  show (right.run x n).value.getLsbD 0 = _
  rw [right_value, BitVec.getLsbD_ushiftRight, Nat.add_zero]

/-- Zeros come in, so the sign changes if it is set. -/
theorem right_overflow : (right.run x n).overflow = true ↔ 0 < n ∧ x.msb = true := by
  rw [run_overflow]
  constructor
  · intro ⟨k, hk, hchanges⟩
    refine ⟨by omega, ?_⟩
    have hvalue : (right.run x k).value.msb = true := by simpa [right] using hchanges
    rw [right_value, BitVec.msb_ushiftRight, Bool.and_eq_true] at hvalue
    exact hvalue.2
  · intro ⟨hn, hmsb⟩
    refine ⟨0, hn, ?_⟩
    show ((x >>> 1).msb != x.msb) = true
    simp [hmsb]

theorem arithmeticRight_value : (arithmeticRight.run x n).value = x.sshiftRight n := by
  induction n with
  | zero => simp [run]
  | succ n ih =>
    show (arithmeticRight.run x n).value.sshiftRight 1 = _
    rw [ih, BitVec.sshiftRight_add]

theorem arithmeticRight_carry (h : n < w) :
    (arithmeticRight.run x (n + 1)).carry = x.getLsbD n := by
  show (arithmeticRight.run x n).value.getLsbD 0 = _
  rw [arithmeticRight_value, BitVec.getLsbD_sshiftRight]
  simp [h]
  omega

/-- The sign comes in. -/
theorem arithmeticRight_overflow : (arithmeticRight.run x n).overflow = false := by
  rw [← Bool.not_eq_true, run_overflow]
  intro ⟨k, _, hchanges⟩
  simp [arithmeticRight] at hchanges

/-! ## To the left, with the sign kept -/

theorem arithmeticLeft_next_getMsbD (x : BitVec w) (k : ℕ) :
    (arithmeticLeft.next x).getMsbD k = if k = 0 then x.msb else x.getMsbD (k + 1) := by
  show (bif x.msb then x <<< 1 ||| BitVec.intMin w
    else x <<< 1 &&& ~~~BitVec.intMin w).getMsbD k = _
  cases hmsb : x.msb with
  | true =>
    have hw : 0 < w := by
      by_contra hw
      obtain rfl : w = 0 := by omega
      simp [BitVec.msb] at hmsb
    rw [cond_true, BitVec.getMsbD_or, BitVec.getMsbD_intMin, BitVec.getMsbD_shiftLeft]
    split <;> simp [*]
  | false =>
    rw [cond_false, BitVec.getMsbD_and, BitVec.getMsbD_not, BitVec.getMsbD_intMin,
      BitVec.getMsbD_shiftLeft]
    split
    case isTrue hk => simp [hk]
    case isFalse hk =>
      by_cases hkw : k < w
      · simp [hk, hkw]
      · simp [BitVec.getMsbD_of_ge x (k + 1) (by omega)]

theorem arithmeticLeft_value (k : ℕ) :
    (arithmeticLeft.run x n).value.getMsbD k = if k = 0 then x.msb else x.getMsbD (k + n) := by
  induction n generalizing k with
  | zero =>
    show x.getMsbD k = _
    split
    · next hk => rw [hk, BitVec.msb]
    · rfl
  | succ n ih =>
    show (arithmeticLeft.next (arithmeticLeft.run x n).value).getMsbD k = _
    rw [arithmeticLeft_next_getMsbD, BitVec.msb, ih, ih]
    split
    · rfl
    · rw [if_neg (by omega)]
      congr 1
      omega

theorem arithmeticLeft_carry : (arithmeticLeft.run x (n + 1)).carry = x.getMsbD (n + 1) := by
  show (arithmeticLeft.run x n).value.getMsbD 1 = _
  rw [arithmeticLeft_value, if_neg (by decide), Nat.add_comm]

theorem arithmeticLeft_overflow :
    (arithmeticLeft.run x n).overflow = true ↔ ∃ k < n, x.getMsbD (k + 1) ≠ x.msb := by
  rw [run_overflow]
  refine exists_congr fun k => and_congr_right fun _ => ?_
  show (((arithmeticLeft.run x k).value <<< 1).msb != (arithmeticLeft.run x k).value.msb) = true ↔ _
  rw [msb_shiftLeft, BitVec.msb, arithmeticLeft_value, arithmeticLeft_value, bne_iff_ne,
    if_pos rfl, if_neg (by decide), Nat.add_comm]

end BitShift
