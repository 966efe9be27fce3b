import Mathlib.Tactic.Linarith
import QUniBone.Cpu.ConditionCodes

/-!
# Exact arithmetic of the extended instruction set

What `ASH`, `ASHC`, `MUL` and `DIV` are to compute, and that the closed forms and bit loops of
the source compute it.

* `shiftBy`: a shift is one arithmetic shift after the other.
* `divLong`: `DIV` with its call of `ldiv()`, whose behaviour is undefined where the quotient
  is no `long`.
* `IsQuotRem`: quotient and remainder of a division that truncates.
-/

namespace QUniBone.Alu

section

variable {w : ℕ}

/-! ## Shifts -/

/-- One arithmetic shift to the left. C is the bit shifted out, V tells whether the sign has
ever changed. -/
def stepLeft (s : BitVec w × CC) : BitVec w × CC :=
  (s.1 <<< 1, { s.2 with c := s.1.msb, v := s.2.v || (s.1 <<< 1).msb != s.1.msb })

/-- One arithmetic shift to the right. -/
def stepRight (s : BitVec w × CC) : BitVec w × CC :=
  (s.1.sshiftRight 1, { s.2 with c := s.1.getLsbD 0 })

/-- A shift that has ended: N and Z tell about the result. -/
def shiftDone (s : BitVec w × CC) : BitVec w × CC :=
  (s.1, { s.2 with n := s.1.msb, z := s.1 == 0 })

/-- Shift left by a positive count, right by a negative one. -/
def shiftBy (count : ℤ) (v : BitVec w) (cc : CC) : BitVec w × CC :=
  let s : BitVec w × CC := (v, { cc with n := false, z := false, v := false })
  shiftDone (if 0 ≤ count then stepLeft^[count.toNat] s else stepRight^[(-count).toNat] s)

theorem shiftBy_left (n : ℕ) (v : BitVec w) (cc : CC) :
    shiftBy n v cc
      = shiftDone (stepLeft^[n] (v, { cc with n := false, z := false, v := false })) := by
  rw [shiftBy, if_pos (Int.natCast_nonneg n), Int.toNat_natCast]

theorem stepLeft_iterate (v : BitVec w) (cc : CC) (n : ℕ) :
    stepLeft^[n + 1] (v, cc) = (v <<< (n + 1),
      { cc with c := (v <<< n).msb, v := (stepLeft^[n + 1] (v, cc)).2.v }) := by
  induction n with
  | zero => simp [stepLeft]
  | succ n ih =>
      rw [Function.iterate_succ_apply', ih]
      simp only [stepLeft, ← BitVec.shiftLeft_add]

/-- The sign has not changed as long as it is the same in every step. -/
theorem stepLeft_sign (v : BitVec w) (cc : CC) (n : ℕ) :
    (stepLeft^[n] (v, cc)).2.v = false ↔
      cc.v = false ∧ ∀ i ≤ n, (v <<< i).msb = v.msb := by
  have hvalue : ∀ n, (stepLeft^[n] (v, cc)).1 = v <<< n := by
    intro n
    cases n with
    | zero => simp
    | succ n => rw [stepLeft_iterate]
  induction n with
  | zero => simp [BitVec.msb]
  | succ n ih =>
      rw [Function.iterate_succ_apply']
      show ((stepLeft^[n] (v, cc)).2.v ||
        ((stepLeft^[n] (v, cc)).1 <<< 1).msb != (stepLeft^[n] (v, cc)).1.msb) = false ↔ _
      rw [Bool.or_eq_false_iff, hvalue, bne_eq_false_iff_eq, ← BitVec.shiftLeft_add]
      refine (and_congr_left' ih).trans ?_
      constructor
      · rintro ⟨⟨hv, hall⟩, hlast⟩
        refine ⟨hv, fun i hi => ?_⟩
        rcases Nat.lt_or_ge n i with h | h
        · have hi : i = n + 1 := by omega
          rw [hi, hlast, hall n le_rfl]
        · exact hall i h
      · rintro ⟨hv, hall⟩
        exact ⟨⟨hv, fun i hi => hall i (by omega)⟩,
          (hall (n + 1) le_rfl).trans (hall n (by omega)).symm⟩

theorem stepRight_iterate (v : BitVec w) (cc : CC) (n : ℕ) :
    stepRight^[n + 1] (v, cc) = (v.sshiftRight (n + 1),
      { cc with c := (v.sshiftRight n).getLsbD 0 }) := by
  induction n with
  | zero => simp [stepRight]
  | succ n ih =>
      rw [Function.iterate_succ_apply', ih]
      simp only [stepRight, ← BitVec.sshiftRight_add]

theorem shiftBy_right (n : ℕ) (v : BitVec w) (cc : CC) :
    shiftBy (-(n + 1 : ℕ)) v cc
      = shiftDone (v.sshiftRight (n + 1),
        { n := false, z := false, v := false, c := (v.sshiftRight n).getLsbD 0 }) := by
  have hneg : ¬ 0 ≤ -((n + 1 : ℕ) : ℤ) := by omega
  rw [shiftBy, if_neg hneg, neg_neg, Int.toNat_natCast, stepRight_iterate]

end

/-- The signed 6 bit count of a shift. -/
def shiftCount (dr : Word) : ℤ := (dr.setWidth 6).toInt

theorem shiftCount_eq (dr : Word) :
    shiftCount dr = if 32 ≤ (dr &&& 0o77).toNat then ((dr &&& 0o77).toNat : ℤ) - 64
      else (dr &&& 0o77).toNat := by
  have hlow : (dr &&& 0o77).toNat = (dr.setWidth 6).toNat := by
    rw [BitVec.toNat_and, BitVec.toNat_setWidth]
    exact Nat.and_two_pow_sub_one_eq_mod dr.toNat 6
  have hlt := (dr.setWidth 6).isLt
  rw [shiftCount, hlow, BitVec.toInt_eq_toNat_cond]
  split <;> split <;> omega

/-! ### Closed forms of a shift to the right -/

/-- The bit that went last. -/
theorem lastOut {w n : ℕ} (v : BitVec w) (hn : n < w) :
    (v.sshiftRight n).getLsbD 0 = v.getLsbD n := by
  rw [BitVec.getLsbD_sshiftRight]
  simp [hn, show ¬ w = 0 by omega]

theorem lastOut_of_le {w n : ℕ} (v : BitVec w) (hw : 0 < w) (hn : w ≤ n) :
    (v.sshiftRight n).getLsbD 0 = v.msb := by
  rw [BitVec.getLsbD_sshiftRight]
  simp [show ¬ n < w by omega, show ¬ w = 0 by omega]

/-- All that is left is the sign. -/
theorem sshiftRight_of_le {w n : ℕ} (v : BitVec w) (hn : w ≤ n) :
    v.sshiftRight n = if v.msb then BitVec.allOnes w else 0#w := by
  apply BitVec.eq_of_getLsbD_eq
  intro i hi
  rw [BitVec.getLsbD_sshiftRight]
  cases v.msb <;> simp [hi, show ¬ n + i < w by omega, show ¬ w ≤ i by omega]

/-- An arithmetic shift as the source composes it: the bits, and the sign in front of them. -/
theorem sshiftRight_eq_or {w n : ℕ} (v : BitVec w) (hn : n ≤ w) :
    (v >>> n) ||| ((if v.msb then BitVec.allOnes w else 0#w) <<< (w - n)) = v.sshiftRight n := by
  apply BitVec.eq_of_getLsbD_eq
  intro i hi
  rw [BitVec.getLsbD_or, BitVec.getLsbD_ushiftRight, BitVec.getLsbD_shiftLeft,
    BitVec.getLsbD_sshiftRight]
  by_cases h : n + i < w
  · cases v.msb <;> simp [h, hi, show ¬ w ≤ i by omega, show i < w - n by omega]
  · cases v.msb <;>
      simp [h, hi, show ¬ w ≤ i by omega, show ¬ i < w - n by omega, show i - (w - n) < w by omega,
        BitVec.getLsbD_of_ge v (n + i) (by omega)]

/-! ### `ASHC` -/

theorem ashcLeft_eq (n : ℕ) (val : UInt) (cc : CC) :
    ashcLeft n val cc = stepLeft^[n] (val, cc) := by
  induction n generalizing val cc with
  | zero => rfl
  | succ n ih =>
      rw [ashcLeft, ih, Function.iterate_succ_apply]
      congr 1
      have hsign : (val ^^^ (val <<< 1)).getLsbD 31 = ((val <<< 1).msb != val.msb) := by
        rw [BitVec.getLsbD_xor, BitVec.msb_eq_getLsbD_last, BitVec.msb_eq_getLsbD_last,
          Bool.xor_comm]
      simp only [stepLeft, hsign]
      rfl

/-- The register pair, as one number. -/
def pair (hi lo : Word) : UInt := hi ++ lo

theorem pair_eq (hi lo : Word) : wide hi <<< 16 ||| wide lo = pair hi lo := by
  apply BitVec.eq_of_getLsbD_eq
  intro i hi'
  simp only [wide, pair, BitVec.getLsbD_or, BitVec.getLsbD_shiftLeft, BitVec.getLsbD_setWidth,
    BitVec.getLsbD_append]
  by_cases h : i < 16
  · simp [h, hi']
  · simp [h, hi', BitVec.getLsbD_of_ge lo i (by omega), show i - 16 < 32 by omega]

theorem ashc_exact (dr hi lo : Word) (cc : CC) :
    ashc dr hi lo cc = shiftBy (shiftCount dr) (pair hi lo) cc := by
  have hcount := shiftCount_eq dr
  have hlt : (dr &&& 0o77).toNat < 64 := by
    rw [BitVec.toNat_and]
    exact Nat.lt_of_le_of_lt Nat.and_le_right (by decide)
  have hmask : ∀ v : UInt, (if v.getLsbD 31 then 0xffffffff else 0)
      = if v.msb then BitVec.allOnes 32 else 0#32 := fun _ => rfl
  unfold ashc
  rw [pair_eq]
  generalize (dr &&& 0o77).toNat = sh at hcount hlt
  by_cases hneg : 32 ≤ sh
  · obtain ⟨n, hn⟩ : ∃ n, 64 - sh = n + 1 := ⟨63 - sh, by omega⟩
    have hright : shiftCount dr = -(n + 1 : ℕ) := by
      rw [hcount, if_pos hneg]
      omega
    rw [hright, shiftBy_right]
    simp only [hneg, if_true, hn, hmask]
    by_cases hall : 32 ≤ n + 1
    · have hn31 : n = 31 := by omega
      subst hn31
      simp only [sshiftRight_of_le _ le_rfl, lastOut _ (show 31 < 32 by omega)]
      rfl
    · simp only [hall, if_false, Nat.add_sub_cancel, lastOut _ (show n < 32 by omega),
        sshiftRight_eq_or _ (show n + 1 ≤ 32 by omega)]
      rfl
  · rw [hcount, if_neg hneg, shiftBy_left, ← ashcLeft_eq]
    simp only [hneg, if_false]
    rfl

/-! ### `ASH` -/

/-- The low 16 bits of the accumulator are shifted as a register would be. -/
theorem ashLeft_eq (n : ℕ) (b : UInt) (cc : CC) :
    (Word.ofUInt (ashLeft n b cc).1, (ashLeft n b cc).2)
      = stepLeft^[n] (Word.ofUInt b, cc) := by
  induction n generalizing b cc with
  | zero => rfl
  | succ n ih =>
      rw [ashLeft, ih, Function.iterate_succ_apply]
      have hshift : Word.ofUInt (b <<< 1) = Word.ofUInt b <<< 1 := by
        apply BitVec.eq_of_getLsbD_eq
        intro i hi
        simp only [Word.ofUInt, BitVec.getLsbD_setWidth, BitVec.getLsbD_shiftLeft]
        simp [hi, show i < 32 by omega, show i - 1 < 16 by omega]
      have hmsb : ∀ b : UInt, b.getLsbD 15 = (Word.ofUInt b).msb := by
        intro b
        rw [BitVec.msb_eq_getLsbD_last, Word.ofUInt, BitVec.getLsbD_setWidth]
        rfl
      have hsign : (b ^^^ (b <<< 1)).getLsbD 15
          = ((Word.ofUInt b <<< 1).msb != (Word.ofUInt b).msb) := by
        rw [BitVec.getLsbD_xor, hmsb, hmsb, hshift, Bool.xor_comm]
      simp only [stepLeft, hsign, hshift, hmsb]

/-- From 17 on all bits have gone, through the sign. -/
theorem stepLeft_all (v : Word) (cc : CC) {n : ℕ} (hn : 16 ≤ n) (hv : cc.v = false) :
    stepLeft^[n + 1] (v, cc) = (0, { cc with c := false, v := v != 0 }) := by
  have hzero : ∀ k, 16 ≤ k → v <<< k = 0 := fun k hk => BitVec.shiftLeft_eq_zero hk
  have hsign := stepLeft_sign v cc (n + 1)
  have hchanged : (stepLeft^[n + 1] (v, cc)).2.v = (v != 0) := by
    rw [Bool.eq_iff_iff, ← Bool.not_eq_false, hsign, bne_iff_ne, not_iff_not]
    constructor
    · -- with no change of sign all bits are 0, as the last sign is
      rintro ⟨-, hall⟩
      have hmsb : v.msb = false := by
        rw [← hall 16 (by omega), hzero 16 le_rfl]
        rfl
      apply BitVec.eq_of_getLsbD_eq
      intro i hi
      have hbit := hall (15 - i) (by omega)
      rw [hmsb, BitVec.msb_eq_getLsbD_last, BitVec.getLsbD_shiftLeft] at hbit
      simpa [show ¬ 15 < 15 - i by omega, show 15 - (15 - i) = i by omega] using hbit
    · rintro rfl
      exact ⟨hv, fun i _ => by simp⟩
  rw [stepLeft_iterate, hchanged, hzero _ (by omega), hzero n hn]
  rfl

theorem ash_exact (dr reg : Word) (cc : CC) :
    ash dr reg cc = shiftBy (shiftCount dr) reg cc := by
  have hcount := shiftCount_eq dr
  have hlt : (dr &&& 0o77).toNat < 64 := by
    rw [BitVec.toNat_and]
    exact Nat.lt_of_le_of_lt Nat.and_le_right (by decide)
  have hmask : ∀ v : Word, (if v.sgn then 0o177777 else 0)
      = if v.msb then BitVec.allOnes 16 else 0#16 := fun _ => rfl
  unfold ash
  generalize (dr &&& 0o77).toNat = sh at hcount hlt
  by_cases hneg : 32 ≤ sh
  · obtain ⟨n, hn⟩ : ∃ n, 64 - sh = n + 1 := ⟨63 - sh, by omega⟩
    have hright : shiftCount dr = -(n + 1 : ℕ) := by
      rw [hcount, if_pos hneg]
      omega
    rw [hright, shiftBy_right]
    simp only [hneg, if_true, hn, hmask]
    by_cases hall : 17 ≤ n + 1
    · simp only [hall, if_true, sshiftRight_of_le _ (show 16 ≤ n + 1 by omega),
        lastOut_of_le _ (by decide : 0 < 16) (show 16 ≤ n by omega)]
      rfl
    · simp only [hall, if_false, Nat.add_sub_cancel, lastOut _ (show n < 16 by omega),
        sshiftRight_eq_or _ (show n + 1 ≤ 16 by omega)]
      rfl
  · have hleft : shiftCount dr = sh := by rw [hcount, if_neg hneg]
    rw [hleft, shiftBy_left]
    simp only [hneg, if_false]
    by_cases hzero : sh = 0
    · subst hzero
      rfl
    · by_cases hall : 17 ≤ sh
      · obtain ⟨n, rfl⟩ : ∃ n, sh = n + 1 := ⟨sh - 1, by omega⟩
        rw [stepLeft_all _ _ (show 16 ≤ n by omega) rfl]
        simp [hall, shiftDone]
      · have hlow : Word.ofUInt (wide reg) = reg := ofUInt_wide reg
        have hloop := ashLeft_eq sh (wide reg) { n := false, z := false, v := false, c := cc.c }
        rw [hlow] at hloop
        simp only [hzero, hall, if_false, ← hloop]
        rfl

/-! ## Multiplication -/

/-- The result of `MUL` is the product, and C tells that it does not fit a word. -/
structure IsProduct (a b : Word) (r : UInt × CC) : Prop where
  product : r.1.toInt = a.toInt * b.toInt
  n : r.2.n = decide (a.toInt * b.toInt < 0)
  z : r.2.z = decide (a.toInt * b.toInt = 0)
  v : r.2.v = false
  c : r.2.c = true ↔ ¬ (-32768 ≤ a.toInt * b.toInt ∧ a.toInt * b.toInt ≤ 32767)

theorem toInt_word (a : Word) : -32768 ≤ a.toInt ∧ a.toInt ≤ 32767 := by
  have hle := BitVec.le_two_mul_toInt (x := a)
  have hlt := BitVec.two_mul_toInt_lt (x := a)
  omega

theorem mul_exact (dr reg : Word) : IsProduct dr reg (mul dr reg) := by
  obtain ⟨ha, ha'⟩ := toInt_word dr
  obtain ⟨hb, hb'⟩ := toInt_word reg
  have hlow : -1073741824 ≤ dr.toInt * reg.toInt := by nlinarith
  have hhigh : dr.toInt * reg.toInt ≤ 1073741824 := by nlinarith
  have hprod : (mul dr reg).1.toInt = dr.toInt * reg.toInt := by
    show (dr.signExtend 32 * reg.signExtend 32 : UInt).toInt = _
    rw [BitVec.toInt_mul, BitVec.toInt_signExtend_of_le (by decide),
      BitVec.toInt_signExtend_of_le (by decide)]
    exact Int.bmod_eq_of_le (by omega) (by omega)
  refine ⟨hprod, ?_, ?_, rfl, ?_⟩
  · show (mul dr reg).1.msb = _
    rw [BitVec.msb_eq_toInt, hprod]
  · show ((mul dr reg).1 == 0) = _
    rw [Bool.eq_iff_iff, beq_iff_eq, decide_eq_true_iff, ← hprod, ← BitVec.toInt_inj]
    rfl
  · show (decide ((mul dr reg).1.toInt < -32768) || decide (32767 < (mul dr reg).1.toInt)) = true
      ↔ _
    rw [Bool.or_eq_true, decide_eq_true_iff, decide_eq_true_iff, hprod]
    omega

/-! ## Division -/

/-- Quotient and remainder of a division that truncates. -/
structure IsQuotRem (a b q r : ℤ) : Prop where
  equation : a = q * b + r
  small : |r| < |b|
  sign : r = 0 ∨ (r < 0 ↔ a < 0)

theorem isQuotRem_tdiv {a b : ℤ} (hb : b ≠ 0) : IsQuotRem a b (a.tdiv b) (a.tmod b) := by
  refine ⟨?_, ?_, ?_⟩
  · rw [Int.mul_comm]
    exact (Int.mul_tdiv_add_tmod a b).symm
  · rw [Int.abs_eq_natAbs, Int.abs_eq_natAbs, Int.natAbs_tmod]
    exact_mod_cast Nat.mod_lt _ (Int.natAbs_pos.mpr hb)
  · have hsign := Int.sign_tmod a b
    split at hsign
    · exact .inl (Int.sign_eq_zero_iff_zero.mp hsign)
    · right
      rw [← Int.sign_eq_neg_one_iff_neg, hsign, Int.sign_eq_neg_one_iff_neg]

/-- There is no other quotient and no other remainder. -/
theorem IsQuotRem.eq_tdiv {a b q r : ℤ} (h : IsQuotRem a b q r) :
    q = a.tdiv b ∧ r = a.tmod b := by
  have hsmall := h.small
  have heq := h.equation
  have hb : b ≠ 0 := by
    rintro rfl
    rw [abs_zero] at hsmall
    exact absurd (abs_nonneg r) (by omega)
  rw [Int.abs_eq_natAbs, Int.abs_eq_natAbs] at hsmall
  rcases Int.lt_or_le a 0 with ha | ha
  · have hr : r ≤ 0 := by
      rcases h.sign with hr | hr
      · omega
      · exact le_of_lt (hr.mpr ha)
    have hunique := (Int.tdiv_tmod_unique' (r := r) (q := q) (le_of_lt ha) hb).mpr
      ⟨by rw [heq, Int.mul_comm q, Int.add_comm], by omega, hr⟩
    exact ⟨hunique.1.symm, hunique.2.symm⟩
  · have hr : 0 ≤ r := by
      rcases h.sign with hr | hr
      · omega
      · by_contra hneg
        exact absurd (hr.mp (by omega)) (by omega)
    have hunique := (Int.tdiv_tmod_unique (r := r) (q := q) ha hb).mpr
      ⟨by rw [heq, Int.mul_comm q, Int.add_comm], hr, by omega⟩
    exact ⟨hunique.1.symm, hunique.2.symm⟩

/-- `ldiv()` of the C library for a `long` of 32 bits. Its behaviour is undefined for the
divisor 0, and where the quotient cannot be represented. -/
def ldiv (numer denom : ℤ) : Option (ℤ × ℤ) :=
  let quot := numer.tdiv denom
  if denom ≠ 0 ∧ -2147483648 ≤ quot ∧ quot ≤ 2147483647 then some (quot, numer.tmod denom)
  else none

/-- `DIV` with its call of `ldiv()`, `none` if that is undefined. -/
def divLong (dr hi lo : Word) : Option (Option Pair × CC) :=
  if dr = 0 then some (none, { n := false, z := false, v := true, c := true })
  else
    (ldiv (pair hi lo).toInt dr.toInt).map fun d =>
      let quot : Word := BitVec.ofInt 16 d.1
      let fits := -32768 ≤ d.1 ∧ d.1 ≤ 32767
      (if fits then some (quot, BitVec.ofInt 16 d.2) else none,
        { n := quot.sgn, z := quot == 0, v := !fits, c := false })

/-- What a division of the pair `hi:lo` by `dr` is to leave: a quotient and a remainder of 16
bits, or the registers as they are with V telling that there is no such quotient, and C that
the divisor is 0. -/
inductive IsDivision (dr hi lo : Word) : Option Pair × CC → Prop
  | divided {quot rem : Word} :
      IsQuotRem (pair hi lo).toInt dr.toInt quot.toInt rem.toInt →
      IsDivision dr hi lo
        (some (quot, rem), { n := quot.msb, z := quot == 0, v := false, c := false })
  | overflow {cc : CC} :
      (∀ q r, IsQuotRem (pair hi lo).toInt dr.toInt q r → ¬ (-32768 ≤ q ∧ q ≤ 32767)) →
      cc.v = true → (cc.c = true ↔ dr = 0) → IsDivision dr hi lo (none, cc)

theorem toInt_ofInt_word {q : ℤ} (h : -32768 ≤ q) (h' : q ≤ 32767) :
    (BitVec.ofInt 16 q).toInt = q := by
  rw [BitVec.toInt_ofInt]
  exact Int.bmod_eq_of_le (by omega) (by omega)

theorem toInt_eq_zero_iff {dr : Word} : dr.toInt = 0 ↔ dr = 0 := by
  rw [← BitVec.toInt_inj]
  rfl

theorem div_exact (dr hi lo : Word) : IsDivision dr hi lo (div dr hi lo) := by
  unfold div
  rw [pair_eq]
  by_cases hzero : dr = 0
  · subst hzero
    refine .overflow (fun q r h => ?_) rfl (by simp)
    have hsmall : |r| < 0 := by simpa using h.small
    exact absurd (abs_nonneg r) (by omega)
  · have hb : dr.toInt ≠ 0 := fun h => hzero (toInt_eq_zero_iff.mp h)
    have hqr := isQuotRem_tdiv (a := (pair hi lo).toInt) hb
    simp only [hzero, if_false]
    by_cases hfits : -32768 ≤ (pair hi lo).toInt.tdiv dr.toInt ∧
        (pair hi lo).toInt.tdiv dr.toInt ≤ 32767
    · obtain ⟨hd, hd'⟩ := toInt_word dr
      have hsmall := hqr.small
      rw [abs_lt] at hsmall
      have habs : |dr.toInt| ≤ 32768 := abs_le.mpr ⟨by omega, by omega⟩
      have hquot := toInt_ofInt_word hfits.1 hfits.2
      have hrem := toInt_ofInt_word (q := (pair hi lo).toInt.tmod dr.toInt) (by omega) (by omega)
      rw [if_pos hfits]
      simp only [hfits, and_self, decide_true, Bool.not_true]
      exact .divided (by rwa [hquot, hrem])
    · rw [if_neg hfits]
      refine .overflow (fun q r h => ?_) ?_ ?_
      · rw [h.eq_tdiv.1]
        exact hfits
      · simp only [hfits, decide_false, Bool.not_false]
      · exact iff_of_false Bool.false_ne_true hzero

theorem toInt_pair (v : UInt) : -2147483648 ≤ v.toInt ∧ v.toInt ≤ 2147483647 := by
  have hle := BitVec.le_two_mul_toInt (x := v)
  have hlt := BitVec.two_mul_toInt_lt (x := v)
  omega

/-- A quotient is smaller than its dividend but for the divisors 1 and -1. -/
theorem ldiv_eq {a b : ℤ} (ha : -2147483648 ≤ a ∧ a ≤ 2147483647) (hb : b ≠ 0)
    (h : ¬ (a = -2147483648 ∧ b = -1)) : ldiv a b = some (a.tdiv b, a.tmod b) := by
  have hqr := isQuotRem_tdiv (a := a) hb
  have hle := Int.natAbs_tdiv_le_natAbs a b
  have hequation := hqr.equation
  have hsmall := hqr.small
  rw [Int.abs_eq_natAbs, Int.abs_eq_natAbs] at hsmall
  have hne : a.tdiv b ≠ 2147483648 := by
    intro hq
    rw [hq] at hequation hle
    omega
  exact if_pos ⟨hb, by omega, by omega⟩

theorem ldiv_undefined {a b : ℤ} (ha : a = -2147483648) (hb : b = -1) : ldiv a b = none := by
  subst ha hb
  decide

/-- Where `ldiv()` is defined, `DIV` is the division it calculates. -/
theorem divLong_eq (dr hi lo : Word) :
    divLong dr hi lo = if (pair hi lo).toInt = -2147483648 ∧ dr.toInt = -1 then none
      else some (div dr hi lo) := by
  unfold divLong div
  rw [pair_eq]
  by_cases hzero : dr = 0
  · subst hzero
    simp
  · have hb : dr.toInt ≠ 0 := fun h => hzero (toInt_eq_zero_iff.mp h)
    simp only [hzero, if_false]
    split
    case isTrue h => rw [ldiv_undefined h.1 h.2, Option.map_none]
    case isFalse h =>
      rw [ldiv_eq (toInt_pair _) hb h]
      rfl

end QUniBone.Alu
