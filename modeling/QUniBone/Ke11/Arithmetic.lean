import QUniBone.Ke11.Shifts
import Mathlib.Tactic.IntervalCases

/-!
# KE11-A: exact results

* `Lane`, `taken`: the operand that is meant by a write, and that which the device takes.
* `Multiplies`, `Divides`: products and quotients. The shifts have theirs.
* `Exact`: the operation gives the result.
* `operation_exact_iff`: when it does.
-/

namespace QUniBone.KE11

open BitShift

/-! ## Operands -/

inductive Operation
  | div
  | mul
  | nor
  | lsh
  | ash

def Operation.reg : Operation → Reg
  | .div => .DIV
  | .mul => .MUL
  | .nor => .NOR
  | .lsh => .LSH
  | .ash => .ASH

/-- A word, or its low byte -/
inductive Lane
  | word
  | low

namespace Lane

def access : Lane → Access
  | .word => .word
  | .low => .byteL

/-- A low byte means the word with its sign. -/
def meant (data : BitVec 16) : Lane → BitVec 16
  | .word => data
  | .low => (data.extractLsb' 0 8).signExtend 16

end Lane

/-- The operand that DIV and MUL take -/
def taken (s : State) (r : Reg) (lane : Lane) (data : BitVec 16) : BitVec 16 :=
  operand lane.access ((s.latch r lane.access data).dato r)

/-- No byte of an earlier operand is left. -/
def Replaced (s : State) (r : Reg) (lane : Lane) (data : BitVec 16) : Prop :=
  lane = .low → data.getLsbD 7 = false → (s.dato r).extractLsb' 8 8 = 0

/-- The low 6 bits are signed. -/
def count (y : BitVec 16) : ℤ := (y.extractLsb' 0 6).toInt

section

variable {s : State} {r : Reg} {data : BitVec 16} {lane : Lane}

theorem latch_dato_of_ne (hr : r ≠ .NOR) :
    (s.latch r lane.access data).dato r = written (s.dato r) data lane.access := by
  rw [latch_dato, and_writableBits hr]

theorem taken_word (hr : r ≠ .NOR) : taken s r .word data = data := by
  rw [taken, latch_dato_of_ne hr, operand, if_neg (fun h => by cases h.1)]
  rfl

theorem written_low_getLsbD (old data : BitVec 16) {i : ℕ} (hi : i < 16) :
    (written old data .byteL).getLsbD i = if i < 8 then data.getLsbD i else old.getLsbD i := by
  have hhigh : (0xff00 : BitVec 16).getLsbD i = decide (8 ≤ i) := by interval_cases i <;> rfl
  have hlow : (0x00ff : BitVec 16).getLsbD i = decide (i < 8) := by interval_cases i <;> rfl
  show (old &&& 0xff00 ||| data &&& 0x00ff).getLsbD i = _
  rw [BitVec.getLsbD_or, BitVec.getLsbD_and, BitVec.getLsbD_and, hhigh, hlow]
  split
  case isTrue hlt => simp [hlt, show ¬ 8 ≤ i by omega, -BitVec.getLsbD_eq_getElem]
  case isFalse hge => simp [hge, show 8 ≤ i by omega, -BitVec.getLsbD_eq_getElem]

theorem meant_low_getLsbD (data : BitVec 16) {i : ℕ} (hi : i < 16) :
    (Lane.low.meant data).getLsbD i = if i < 8 then data.getLsbD i else data.getLsbD 7 := by
  show ((data.extractLsb' 0 8).signExtend 16).getLsbD i = _
  rw [BitVec.getLsbD_signExtend, decide_eq_true hi, Bool.true_and, BitVec.msb_eq_getLsbD_last,
    BitVec.getLsbD_extractLsb', BitVec.getLsbD_extractLsb']
  split
  case isTrue hlt => simp [hlt, -BitVec.getLsbD_eq_getElem]
  case isFalse => simp [-BitVec.getLsbD_eq_getElem]

/-- A byte with its sign set is extended. -/
theorem taken_low_negative (hr : r ≠ .NOR) (hsign : data.getLsbD 7 = true) :
    taken s r .low data = Lane.low.meant data := by
  have hbit : (written (s.dato r) data .byteL).getLsbD 7 = true := by
    rw [written_low_getLsbD _ _ (by decide), if_pos (by decide), hsign]
  rw [taken, latch_dato_of_ne hr, operand]
  show (if Access.byteL = .byteL ∧ (written (s.dato r) data .byteL).getLsbD 7 = true then _
    else _) = _
  rw [if_pos ⟨rfl, hbit⟩]
  apply BitVec.eq_of_getLsbD_eq
  intro i hi
  have hhigh : (0o177400 : BitVec 16).getLsbD i = decide (8 ≤ i) := by interval_cases i <;> rfl
  rw [meant_low_getLsbD _ hi, BitVec.getLsbD_or, hhigh]
  show ((written (s.dato r) data .byteL).getLsbD i || _) = _
  rw [written_low_getLsbD _ _ hi]
  split
  case isTrue hlt => simp [show ¬ 8 ≤ i by omega]
  case isFalse hge => simp [show 8 ≤ i by omega, hsign]

/-- A byte with its sign clear is not. -/
theorem taken_low_nonneg (hr : r ≠ .NOR) (hsign : data.getLsbD 7 = false) :
    taken s r .low data = (s.dato r).extractLsb' 8 8 ++ data.extractLsb' 0 8 := by
  have hbit : (written (s.dato r) data .byteL).getLsbD 7 = false := by
    rw [written_low_getLsbD _ _ (by decide), if_pos (by decide), hsign]
  rw [taken, latch_dato_of_ne hr, operand]
  show (if Access.byteL = .byteL ∧ (written (s.dato r) data .byteL).getLsbD 7 = true then _
    else _) = _
  rw [if_neg (by rw [hbit]; decide)]
  apply BitVec.eq_of_getLsbD_eq
  intro i hi
  show (written (s.dato r) data .byteL).getLsbD i = _
  rw [written_low_getLsbD _ _ hi, BitVec.getLsbD_append, BitVec.getLsbD_extractLsb',
    BitVec.getLsbD_extractLsb']
  split
  case isTrue hlt => simp [hlt, -BitVec.getLsbD_eq_getElem]
  case isFalse hge =>
    simp [show i - 8 < 8 by omega, show 8 + (i - 8) = i by omega, -BitVec.getLsbD_eq_getElem]

theorem low_msb (hsign : data.getLsbD 7 = false) : (data.extractLsb' 0 8).msb = false := by
  rw [BitVec.msb_eq_getLsbD_last, BitVec.getLsbD_extractLsb']
  simpa [-BitVec.getLsbD_eq_getElem] using hsign

theorem meant_low_toInt (hsign : data.getLsbD 7 = false) :
    (Lane.low.meant data).toInt = (data.extractLsb' 0 8).toNat := by
  show ((data.extractLsb' 0 8).signExtend 16).toInt = _
  rw [BitVec.toInt_signExtend_of_le (by decide), BitVec.toInt_eq_msb_cond, low_msb hsign]
  rfl

/-- What is left of an earlier operand makes the operand a large one. -/
theorem taken_cases (s : State) (hr : r ≠ .NOR) (lane : Lane)
    (data : BitVec 16) :
    Replaced s r lane data ∧ taken s r lane data = lane.meant data ∨
      ¬ Replaced s r lane data ∧ 0 ≤ (lane.meant data).toInt ∧
        (lane.meant data).toInt < (taken s r lane data).toInt.natAbs := by
  cases lane with
  | word => exact .inl ⟨fun h => (by cases h), taken_word hr⟩
  | low =>
    cases hsign : data.getLsbD 7 with
    | true =>
      exact .inl ⟨fun _ h => absurd (hsign.symm.trans h) (by decide), taken_low_negative hr hsign⟩
    | false =>
      have htaken := taken_low_nonneg (s := s) hr hsign
      by_cases hhigh : (s.dato r).extractLsb' 8 8 = 0
      · refine .inl ⟨fun _ _ => hhigh, ?_⟩
        apply BitVec.eq_of_toInt_eq
        rw [htaken, hhigh, meant_low_toInt hsign, BitVec.toInt_append]
        simp
      · refine .inr ⟨fun h => hhigh (h rfl hsign), ?_⟩
        have hpos : ((s.dato r).extractLsb' 8 8).toInt ≠ 0 := fun h =>
          hhigh (BitVec.eq_of_toInt_eq (h.trans BitVec.toInt_zero.symm))
        have hlow := BitVec.toNat_lt_of_msb_false (low_msb hsign)
        rw [meant_low_toInt hsign, htaken, BitVec.toInt_append]
        rw [if_neg (by decide)]
        omega

end

/-! ## Products -/

/-- The exact product -/
structure Multiplies (mq y : BitVec 16) (t : State) : Prop where
  value : t.acmq.toInt = mq.toInt * y.toInt
  negative : t.flagN = decide (mq.toInt * y.toInt < 0)
  overflow : t.flagV = false
  carry : t.flagC = false

theorem toInt_range (x : BitVec 16) : -2 ^ 15 ≤ x.toInt ∧ x.toInt < 2 ^ 15 :=
  ⟨BitVec.le_toInt x, BitVec.toInt_lt⟩

/-- A product of words has 32 bits. -/
theorem product_toInt (x y : BitVec 16) :
    (BitVec.ofInt 32 (x.toInt * y.toInt)).toInt = x.toInt * y.toInt := by
  have hx := toInt_range x
  have hy := toInt_range y
  have habs : (x.toInt * y.toInt).natAbs ≤ 2 ^ 15 * 2 ^ 15 := by
    rw [Int.natAbs_mul]
    exact Nat.mul_le_mul (by omega) (by omega)
  apply BitVec.toInt_ofInt_eq_self (by decide) <;> omega

theorem MUL_multiplies (s : State) (access : Access) :
    Multiplies s.mq (operand access (s.dato .MUL)) (MUL s access) := by
  let product := BitVec.ofInt 32 (s.mq.toInt * (operand access (s.dato .MUL)).toInt)
  let t : State := { s with
    ac := product.extractLsb' 16 16
    mq := product.extractLsb' 0 16
    sc := 0
    sr := withSign (product.extractLsb' 16 16).msb 0 }
  have ht : MUL s access = t.update := by
    show State.update _ = State.update _
    congr 2
  have hvalue : t.acmq = product := acmq_of_extract product
  rw [ht]
  exact {
    value := by rw [update_acmq, hvalue, product_toInt]
    negative := by
      rw [update_flagN, flagN_of_withSign rfl rfl, extract_msb, BitVec.msb_eq_toInt,
        product_toInt]
    overflow := by rw [update_flagV, flagV_of_withSign rfl rfl]; rfl
    carry := by rw [update_flagC, flagC_of_withSign rfl]; rfl }

/-! ## Quotients -/

/-- The quotient has 16 bits. -/
def Fits (x : BitVec 32) (y : BitVec 16) : Prop :=
  y ≠ 0 ∧ -2 ^ 15 ≤ x.toInt.tdiv y.toInt ∧ x.toInt.tdiv y.toInt < 2 ^ 15

structure Divided (x : BitVec 32) (y : BitVec 16) (t : State) : Prop where
  dividend : x.toInt = t.mq.toInt * y.toInt + t.ac.toInt
  small : t.ac.toInt.natAbs < y.toInt.natAbs
  /-- The remainder has the sign of the dividend. -/
  nonneg : 0 ≤ x.toInt → 0 ≤ t.ac.toInt
  nonpos : x.toInt ≤ 0 → t.ac.toInt ≤ 0
  negative : t.flagN = decide (t.mq.toInt < 0)

structure Divides (x : BitVec 32) (y : BitVec 16) (t : State) : Prop where
  fits : Fits x y → Divided x y t
  overflow : t.flagV = true ↔ ¬ Fits x y

/-- `abs()` and the division have a result in 32 bits. -/
structure Defined (s : State) (div : BitVec 16) : Prop where
  abs : -s.acmq.toInt < 2 ^ 31
  div : ¬ DivideFails s div → div ≠ 0 ∧ s.acmq.toInt.tdiv div.toInt < 2 ^ 31

section

variable {s : State} {div : BitVec 16}

theorem toInt_ne_zero (h : div ≠ 0) : div.toInt ≠ 0 := fun hzero =>
  h (BitVec.eq_of_toInt_eq (hzero.trans BitVec.toInt_zero.symm))

theorem natAbs_tdiv_lt {a b : ℤ} (k : ℕ) (hb : b ≠ 0) :
    (a.tdiv b).natAbs < k ↔ a.natAbs < k * b.natAbs := by
  rw [Int.natAbs_tdiv]
  exact Nat.div_lt_iff_lt_mul (by omega)

/-- The quotient of a division that fails is at least 2^16. -/
theorem not_fits_of_fails (h : DivideFails s div) : ¬ Fits s.acmq div := by
  rintro ⟨hdiv, hlo, hhi⟩
  have hlt : s.acmq.toInt.natAbs < 2 ^ 16 * div.toInt.natAbs :=
    (natAbs_tdiv_lt (2 ^ 16) (toInt_ne_zero hdiv)).mp (by omega)
  have hfails : s.acmq.toInt.natAbs / 2 ^ 16 ≥ div.toInt.natAbs := h
  omega

theorem ne_zero_of_not_fails (h : ¬ DivideFails s div) : div ≠ 0 := by
  rintro rfl
  exact h (Nat.zero_le _)

theorem defined_iff : Defined s div ↔ s.acmq ≠ BitVec.intMin 32 := by
  have hmin : (BitVec.intMin 32).toInt = -2 ^ 31 := by decide
  have hrange : -2 ^ 31 ≤ s.acmq.toInt := BitVec.le_toInt s.acmq
  refine ⟨fun h heq => ?_, fun h => ?_⟩
  · have habs := h.abs
    rw [heq, hmin] at habs
    omega
  · have hne : s.acmq.toInt ≠ -2 ^ 31 := fun heq => h (BitVec.eq_of_toInt_eq (heq.trans hmin.symm))
    refine ⟨by omega, fun hgo => ⟨ne_zero_of_not_fails hgo, ?_⟩⟩
    have hle : (s.acmq.toInt.tdiv div.toInt).natAbs < 2 ^ 31 := by
      refine (natAbs_tdiv_lt _ (toInt_ne_zero (ne_zero_of_not_fails hgo))).mpr ?_
      have hnot : ¬ s.acmq.toInt.natAbs / 2 ^ 16 ≥ div.toInt.natAbs := hgo
      have hdiv := toInt_range div
      omega
    omega

theorem toInt_ofInt_of_range {n : ℤ} (hlo : -2 ^ 15 ≤ n) (hhi : n < 2 ^ 15) :
    (BitVec.ofInt 16 n).toInt = n :=
  BitVec.toInt_ofInt_eq_self (by decide) hlo hhi

theorem natAbs_tmod_lt (a : ℤ) {b : ℤ} (hb : b ≠ 0) : (a.tmod b).natAbs < b.natAbs := by
  rw [Int.natAbs_tmod]
  exact Nat.mod_lt _ (by omega)

/-- V of a division that does not fail -/
def quotientSr (quo : ℤ) : BitVec 8 := if quo > 32767 ∨ quo < -32768 then SR_NXV else 0

theorem quotientSr_getLsbD_six (quo : ℤ) : (quotientSr quo).getLsbD 6 = false := by
  unfold quotientSr
  split <;> rfl

theorem quotientSr_getLsbD_seven (quo : ℤ) :
    (quotientSr quo).getLsbD 7 = true ↔ ¬ (-2 ^ 15 ≤ quo ∧ quo < 2 ^ 15) := by
  unfold quotientSr
  split
  case isTrue hout => exact iff_of_true rfl (by omega)
  case isFalse hin => exact iff_of_false (by decide) (by omega)

/-- The state before the registers are updated -/
def divided (s : State) (quo rem : ℤ) : State :=
  { s with
    ac := BitVec.ofInt 16 rem
    mq := BitVec.ofInt 16 quo
    sc := 0
    sr := withSign (BitVec.ofInt 16 quo).msb (quotientSr quo) }

theorem DIV_of_not_fails (access : Access)
    (h : ¬ DivideFails s (operand access (s.dato .DIV))) :
    DIV s access = (divided s (s.acmq.toInt.tdiv (operand access (s.dato .DIV)).toInt)
      (s.acmq.toInt.tmod (operand access (s.dato .DIV)).toInt)).update := by
  unfold DIV
  exact if_neg h

theorem divided_flagV (quo rem : ℤ) :
    (divided s quo rem).update.flagV = true ↔ ¬ (-2 ^ 15 ≤ quo ∧ quo < 2 ^ 15) := by
  rw [update_flagV, flagV_of_withSign rfl (quotientSr_getLsbD_six quo)]
  exact quotientSr_getLsbD_seven quo

theorem divided_flagN (quo rem : ℤ) :
    (divided s quo rem).update.flagN = (BitVec.ofInt 16 quo).msb := by
  rw [update_flagN, flagN_of_withSign rfl (quotientSr_getLsbD_six quo)]

theorem failedSr_getLsbD (c : Prop) [Decidable c] :
    ((if c then SR_C else 0) ||| SR_NXV).getLsbD 6 = false ∧
      ((if c then SR_C else 0) ||| SR_NXV).getLsbD 7 = true := by
  split <;> exact ⟨rfl, rfl⟩

theorem DIV_of_fails (access : Access) (h : DivideFails s (operand access (s.dato .DIV))) :
    (DIV s access).flagV = true := by
  have hdiv : ∃ sr negative t, DIV s access = State.update t ∧ t.sr = withSign negative sr ∧
      sr.getLsbD 6 = false ∧ sr.getLsbD 7 = true := by
    unfold DIV
    exact ⟨_, _, _, if_pos h, rfl, (failedSr_getLsbD _).1, (failedSr_getLsbD _).2⟩
  obtain ⟨sr, negative, t, ht, hsr, hn, hv⟩ := hdiv
  rw [ht, update_flagV, flagV_of_withSign hsr hn, hv]

/-- The quotient that fits, and the remainder -/
theorem DIV_of_fits (access : Access) (h : Fits s.acmq (operand access (s.dato .DIV))) :
    (DIV s access).mq.toInt = s.acmq.toInt.tdiv (operand access (s.dato .DIV)).toInt ∧
      (DIV s access).ac.toInt = s.acmq.toInt.tmod (operand access (s.dato .DIV)).toInt := by
  rw [DIV_of_not_fails access fun hf => not_fits_of_fails hf h]
  obtain ⟨hne, hlo, hhi⟩ := h
  have hsmall := natAbs_tmod_lt s.acmq.toInt (toInt_ne_zero hne)
  have hrange := toInt_range (operand access (s.dato .DIV))
  exact ⟨toInt_ofInt_of_range hlo hhi, toInt_ofInt_of_range (by omega) (by omega)⟩

theorem DIV_divided (access : Access) (h : Fits s.acmq (operand access (s.dato .DIV))) :
    Divided s.acmq (operand access (s.dato .DIV)) (DIV s access) := by
  obtain ⟨hmq, hac⟩ := DIV_of_fits access h
  exact {
    dividend := by rw [hmq, hac, Int.tdiv_mul_add_tmod]
    small := by rw [hac]; exact natAbs_tmod_lt _ (toInt_ne_zero h.1)
    nonneg := fun hpos => by rw [hac]; exact Int.tmod_nonneg _ hpos
    nonpos := fun hneg => by
      have hflip := Int.tmod_nonneg (operand access (s.dato .DIV)).toInt (Int.neg_nonneg.mpr hneg)
      rw [Int.neg_tmod] at hflip
      rw [hac]
      omega
    negative := by
      rw [DIV_of_not_fails access fun hf => not_fits_of_fails hf h, divided_flagN]
      exact BitVec.msb_eq_toInt }

theorem DIV_divides (s : State) (access : Access) :
    Divides s.acmq (operand access (s.dato .DIV)) (DIV s access) := by
  refine ⟨DIV_divided access, ?_⟩
  by_cases hf : DivideFails s (operand access (s.dato .DIV))
  · exact iff_of_true (DIV_of_fails access hf) (not_fits_of_fails hf)
  · rw [DIV_of_not_fails access hf, divided_flagV, not_iff_not]
    exact (and_iff_right (ne_zero_of_not_fails hf)).symm

end

/-! ## Operations -/

/-- The shifts by a signed count -/
def shiftBy (left right : OneBit 32) (x : BitVec 32) (c : ℤ) : Shifted 32 :=
  if 0 ≤ c then left.run x c.natAbs else right.run x c.natAbs

/-- A write to the register gives the exact result. -/
def Exact (s : State) (op : Operation) (lane : Lane) (data : BitVec 16) : Prop :=
  let t := apply s (.dato op.reg lane.access data)
  match op with
  | .div => Defined s (taken s .DIV lane data) ∧ Divides s.acmq (lane.meant data) t
  | .mul => Multiplies s.mq (lane.meant data) t
  | .nor => ∃ n, Normalizes s.acmq t n
  | .lsh => Shows t (shiftBy .left .right s.acmq (count (lane.meant data)))
  | .ash => Shows t (shiftBy .arithmeticLeft .arithmeticRight s.acmq (count (lane.meant data)))

def Clean (s : State) (op : Operation) (lane : Lane) (data : BitVec 16) : Prop :=
  match op with
  | .div => s.acmq ≠ BitVec.intMin 32 ∧
    (Replaced s .DIV lane data ∨ s.acmq.toInt.natAbs < (lane.meant data).toInt.natAbs ∨
      ¬ Fits s.acmq (lane.meant data) ∧ ¬ Fits s.acmq (taken s .DIV lane data))
  | .mul => Replaced s .MUL lane data ∨ s.mq = 0
  | .nor => True
  | .lsh => 0 ≤ count (lane.meant data) ∨ s.ac.msb = false
  | .ash => True

section

variable {s : State} {lane : Lane} {data : BitVec 16}

theorem mul_exact_iff (s : State) (lane : Lane) (data : BitVec 16) :
    Exact s .mul lane data ↔ Clean s .mul lane data := by
  have hspec : Multiplies s.mq (taken s .MUL lane data)
      (apply s (.dato .MUL lane.access data)) :=
    MUL_multiplies (s.latch .MUL lane.access data) lane.access
  show Multiplies s.mq (lane.meant data) (apply s (.dato .MUL lane.access data)) ↔ _
  rcases taken_cases s (r := .MUL) (by decide) lane data with
    ⟨hreplaced, htaken⟩ | ⟨hkept, hmeant, hlt⟩
  · rw [← htaken]
    exact iff_of_true hspec (.inl hreplaced)
  · refine ⟨fun h => .inr ?_, fun h => ?_⟩
    · -- another factor gives another product, unless the other one is 0
      by_contra hmq
      have hfactor := Int.eq_of_mul_eq_mul_left (toInt_ne_zero hmq) (h.value.symm.trans hspec.value)
      omega
    · have hzero : s.mq.toInt = 0 := by
        rw [h.resolve_left hkept]
        exact BitVec.toInt_zero
      have hproduct (y : BitVec 16) : s.mq.toInt * y.toInt = 0 := by rw [hzero, Int.zero_mul]
      exact {
        value := by rw [hspec.value, hproduct, hproduct]
        negative := by rw [hspec.negative, hproduct, hproduct]
        overflow := hspec.overflow
        carry := hspec.carry }

/-- With a dividend that is smaller than the divisor, the dividend is the remainder. -/
theorem divided_of_small {y : BitVec 16} {t : State} (hy : s.acmq.toInt.natAbs < y.toInt.natAbs)
    (hmq : t.mq.toInt = 0) (hac : t.ac.toInt = s.acmq.toInt)
    (hn : t.flagN = decide (t.mq.toInt < 0)) : Divided s.acmq y t where
  dividend := by rw [hmq, hac]; omega
  small := by rw [hac]; exact hy
  nonneg := fun h => by rw [hac]; exact h
  nonpos := fun h => by rw [hac]; exact h
  negative := hn

theorem tdiv_of_small {a b : ℤ} (h : a.natAbs < b.natAbs) : a.tdiv b = 0 := by
  have hlt : (a.tdiv b).natAbs < 1 := (natAbs_tdiv_lt 1 (by omega)).mpr (by omega)
  omega

theorem fits_of_small {x : BitVec 32} {y : BitVec 16} (h : x.toInt.natAbs < y.toInt.natAbs) :
    Fits x y := by
  refine ⟨fun hzero => ?_, ?_⟩
  · have hint : y.toInt = 0 := by rw [hzero]; rfl
    omega
  · rw [tdiv_of_small h]
    decide

/-- Two quotients are equal only if they are 0. -/
theorem small_of_divided {x : BitVec 32} {y z : BitVec 16} {t : State} (hy : Divided x y t)
    (hz : Divided x z t) (hne : y.toInt ≠ z.toInt) : x.toInt.natAbs < y.toInt.natAbs := by
  have hmul : t.mq.toInt * y.toInt = t.mq.toInt * z.toInt := by
    have h1 := hy.dividend
    have h2 := hz.dividend
    omega
  have hzero : t.mq.toInt = 0 := by
    by_contra hmq
    exact hne (Int.eq_of_mul_eq_mul_left hmq hmul)
  have hdividend := hy.dividend
  rw [hzero, Int.zero_mul, Int.zero_add] at hdividend
  rw [hdividend]
  exact hy.small

theorem div_exact_iff (s : State) (lane : Lane) (data : BitVec 16) :
    Exact s .div lane data ↔ Clean s .div lane data := by
  have hspec : Divides s.acmq (taken s .DIV lane data) (apply s (.dato .DIV lane.access data)) :=
    DIV_divides (s.latch .DIV lane.access data) lane.access
  show Defined s _ ∧ Divides s.acmq (lane.meant data) (apply s (.dato .DIV lane.access data)) ↔ _
  rw [defined_iff]
  refine and_congr_right fun _ => ?_
  rcases taken_cases s (r := .DIV) (by decide) lane data with
    ⟨hreplaced, htaken⟩ | ⟨hkept, hmeant, hlt⟩
  · rw [← htaken]
    exact iff_of_true hspec (.inl hreplaced)
  · refine ⟨fun h => .inr ?_, fun h => ?_⟩
    · by_cases hfits : Fits s.acmq (lane.meant data)
      · have hboth : Fits s.acmq (taken s .DIV lane data) := by
          by_contra hnot
          exact h.overflow.mp (hspec.overflow.mpr hnot) hfits
        exact .inl (small_of_divided (h.fits hfits) (hspec.fits hboth) (by omega))
      · exact .inr ⟨hfits, hspec.overflow.mp (h.overflow.mpr hfits)⟩
    · rcases h.resolve_left hkept with hsmall | ⟨hmeantfits, htakenfits⟩
      · have hfits : Fits s.acmq (taken s .DIV lane data) := fits_of_small (by omega)
        obtain ⟨hmq, hac⟩ := DIV_of_fits (s := s.latch .DIV lane.access data) lane.access hfits
        have hquo : s.acmq.toInt.tdiv (taken s .DIV lane data).toInt = 0 :=
          tdiv_of_small (by omega)
        have hrem := Int.tdiv_mul_add_tmod s.acmq.toInt (taken s .DIV lane data).toInt
        rw [hquo, Int.zero_mul, Int.zero_add] at hrem
        refine ⟨fun _ => divided_of_small hsmall (hmq.trans hquo) (hac.trans hrem)
          (hspec.fits hfits).negative, ?_⟩
        rw [hspec.overflow]
        exact iff_of_false (not_not.mpr hfits) (not_not.mpr (fits_of_small hsmall))
      · refine ⟨fun hfits => absurd hfits hmeantfits, ?_⟩
        rw [hspec.overflow]
        exact iff_of_true htakenfits hmeantfits

theorem nor_exact (s : State) (lane : Lane) (data : BitVec 16) : Exact s .nor lane data :=
  NOR_normalizes (s.latch .NOR lane.access data)

/-! ## Counts -/

/-- The low 6 bits come from the write in any case. -/
theorem latch_low_bits (s : State) {r : Reg} (hr : r ≠ .NOR) (lane : Lane) (data : BitVec 16) :
    ((s.latch r lane.access data).dato r &&& 0o77).toNat =
      ((lane.meant data).extractLsb' 0 6).toNat := by
  have hbits : (s.latch r lane.access data).dato r &&& 0o77 =
      ((lane.meant data).extractLsb' 0 6).setWidth 16 := by
    apply BitVec.eq_of_getLsbD_eq
    intro i hi
    have hmask : (0o77 : BitVec 16).getLsbD i = decide (i < 6) := by interval_cases i <;> rfl
    rw [latch_dato_of_ne hr, BitVec.getLsbD_and, hmask, BitVec.getLsbD_setWidth,
      BitVec.getLsbD_extractLsb', decide_eq_true hi, Bool.true_and, Nat.zero_add, Bool.and_comm]
    by_cases hlt : i < 6
    · cases lane with
      | word => rfl
      | low =>
        have hwritten := written_low_getLsbD (s.dato r) data hi
        have hmeant := meant_low_getLsbD data hi
        rw [if_pos (by omega)] at hwritten hmeant
        rw [hmeant]
        exact congrArg _ hwritten
    · simp [hlt]
  rw [hbits, BitVec.toNat_setWidth]
  have hlt := ((lane.meant data).extractLsb' 0 6).isLt
  exact Nat.mod_eq_of_lt (by omega)

/-- Counts from 32 on are those to the right. -/
theorem count_cases (y : BitVec 16) :
    0 ≤ count y ∧ (count y).natAbs < 32 ∧ (y.extractLsb' 0 6).toNat = (count y).natAbs ∨
      ¬ 0 ≤ count y ∧ 0 < (count y).natAbs ∧ (count y).natAbs ≤ 32 ∧
        (y.extractLsb' 0 6).toNat = 64 - (count y).natAbs := by
  have hlt := (y.extractLsb' 0 6).isLt
  have hint : count y = if 2 * (y.extractLsb' 0 6).toNat < 2 ^ 6 then
      ((y.extractLsb' 0 6).toNat : ℤ) else ((y.extractLsb' 0 6).toNat : ℤ) - (2 ^ 6 : ℕ) :=
    BitVec.toInt_eq_toNat_cond _
  split at hint <;> omega

theorem Shows.overflow_iff {t : State} {r : Shifted 32} {v : Bool}
    (h : Shows t { r with overflow := v }) : Shows t r ↔ v = r.overflow :=
  ⟨fun hr => h.overflow.symm.trans hr.overflow,
    fun hv => ⟨h.value, h.negative, h.overflow.trans hv, h.carry⟩⟩

theorem lsh_exact_iff (s : State) (lane : Lane) (data : BitVec 16) :
    Exact s .lsh lane data ↔ Clean s .lsh lane data := by
  have hcount := latch_low_bits s (r := .LSH) (by decide) lane data
  show Shows (LSH (s.latch .LSH lane.access data)) _ ↔
    0 ≤ count (lane.meant data) ∨ s.ac.msb = false
  rcases count_cases (lane.meant data) with ⟨hleft, hlt, hbits⟩ | ⟨hright, hpos, hle, hbits⟩
  · rw [shiftBy, if_pos hleft]
    exact iff_of_true (LSH_left_shows (hcount.trans hbits) hlt) (.inl hleft)
  · rw [shiftBy, if_neg hright]
    refine (LSH_right_shows (hcount.trans hbits) hpos hle).overflow_iff.trans ?_
    rw [eq_comm, ← Bool.not_eq_true]
    show ¬ (OneBit.right.run s.acmq _).overflow = true ↔ _
    rw [right_overflow, acmq_msb, and_iff_right hpos, Bool.not_eq_true]
    exact (or_iff_right hright).symm

theorem ash_exact (s : State) (lane : Lane) (data : BitVec 16) : Exact s .ash lane data := by
  have hcount := latch_low_bits s (r := .ASH) (by decide) lane data
  show Shows (ASH (s.latch .ASH lane.access data)) _
  rcases count_cases (lane.meant data) with ⟨hleft, hlt, hbits⟩ | ⟨hright, hpos, hle, hbits⟩
  · rw [shiftBy, if_pos hleft]
    exact ASH_left_shows (hcount.trans hbits) hlt
  · rw [shiftBy, if_neg hright]
    exact ASH_right_shows (hcount.trans hbits) hpos hle

end

/-- The writes that give the exact result -/
theorem operation_exact_iff (s : State) (op : Operation) (lane : Lane) (data : BitVec 16) :
    Exact s op lane data ↔ Clean s op lane data := by
  cases op with
  | div => exact div_exact_iff s lane data
  | mul => exact mul_exact_iff s lane data
  | nor => exact iff_of_true (nor_exact s lane data) trivial
  | lsh => exact lsh_exact_iff s lane data
  | ash => exact iff_of_true (ash_exact s lane data) trivial

/-- MUL was written with 256 before. With MQ 3, a low byte 2 is taken for 258. -/
theorem stale_byte_multiplied :
    ¬ Exact (after [.dato .MQ .word 3, .dato .MUL .word 0x100]) .mul .low 2 := by
  intro h
  rcases (mul_exact_iff _ .low 2).mp h with hreplaced | hmq
  · exact absurd (hreplaced rfl (by decide)) (by decide)
  · exact absurd hmq (by decide)

end QUniBone.KE11
