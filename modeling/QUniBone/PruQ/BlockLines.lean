import QUniBone.PruQ.BlockMode
import Mathlib.Data.BitVec

/-!
# Addresses and data of block mode transfers

* `blockEnd_eq`: the end of a block, eight words and 32 bytes at most.
* `addr_lines`, `doutData_eq`: what is on the lines at SYNC and in a DOUT.
-/

namespace QUniBone.PruQ

open PruU (dmaStateRunning lowByte highByte)

namespace BlockMode

/-! ## Blocks -/

theorem or_0x1e (n : ℕ) : n ||| 0x1e = 32 * (n / 32) + 30 + n % 2 := by
  have hlow : ∀ r < 32, r ||| 0x1e = 30 + r % 2 := by decide
  have hr : n % 32 < 2 ^ 5 := Nat.mod_lt _ (by decide)
  have hsplit : n = (n / 32) <<< 5 ||| n % 32 := by
    rw [← Nat.shiftLeft_add_eq_or_of_lt hr, Nat.shiftLeft_eq]
    omega
  have h30 : n % 32 ||| 0x1e < 2 ^ 5 := Nat.or_lt_two_pow hr (by decide)
  calc n ||| 0x1e = (n / 32) <<< 5 ||| (n % 32 ||| 0x1e) := by
        conv_lhs => rw [hsplit]
        exact Nat.or_assoc ..
    _ = (n / 32) <<< 5 + (n % 32 ||| 0x1e) := (Nat.shiftLeft_add_eq_or_of_lt h30 _).symm
    _ = 32 * (n / 32) + 30 + n % 2 := by
        rw [hlow _ (Nat.mod_lt _ (by decide)), Nat.shiftLeft_eq]
        omega

/-- A block ends `j` words after its first one. -/
theorem blockEnd_eq {addr : UInt} {left : Word} (hleft : 0 < left.toNat)
    (h : addr.toNat + 2 * left.toNat ≤ 2 ^ 32) :
    ∃ j, (Pru.blockEnd addr left).toNat = addr.toNat + 2 * j ∧ j ≤ 7 ∧ j < left.toNat ∧
      (addr.toNat + 2 * j) / 32 = addr.toNat / 32 := by
  -- eight words, or what is left
  let words : Word := if left < 8 then left else 8
  have hwords : 0 < words.toNat ∧ words.toNat ≤ 8 ∧ words.toNat ≤ left.toNat := by
    show 0 < (if left < 8 then left else 8 : Word).toNat ∧ _ ∧ _
    by_cases hlt : left < 8
    · have : left.toNat < 8 := hlt
      rw [if_pos hlt]
      show 0 < _ ∧ (if left < 8 then left else 8 : Word).toNat ≤ _ ∧
        (if left < 8 then left else 8 : Word).toNat ≤ _
      rw [if_pos hlt]
      omega
    · have : ¬ left.toNat < 8 := hlt
      show 0 < _ ∧ (if left < 8 then left else 8 : Word).toNat ≤ _ ∧
        (if left < 8 then left else 8 : Word).toNat ≤ _
      rw [if_neg hlt]
      show 0 < 8 ∧ 8 ≤ 8 ∧ 8 ≤ _
      omega
  have hend1 : (addr + 2 * (words.setWidth 32 - 1)).toNat = addr.toNat + 2 * (words.toNat - 1) := by
    have hw : (words.setWidth 32).toNat = words.toNat := by
      rw [BitVec.toNat_setWidth]
      exact Nat.mod_eq_of_lt (by omega)
    have hsub : (words.setWidth 32 - 1).toNat = words.toNat - 1 := by
      rw [BitVec.toNat_sub_of_le (by show 1 ≤ (words.setWidth 32).toNat; omega), hw]
      rfl
    rw [BitVec.toNat_add, BitVec.toNat_mul, hsub]
    show (_ + 2 * _ % _) % _ = _
    omega
  have hend2 : (addr ||| 0x1e).toNat = 32 * (addr.toNat / 32) + 30 + addr.toNat % 2 := by
    rw [BitVec.toNat_or]
    exact or_0x1e _
  show ∃ j, (if addr + 2 * (words.setWidth 32 - 1) < addr ||| 0x1e then _ else _ : UInt).toNat = _ ∧ _
  by_cases hlt : addr + 2 * (words.setWidth 32 - 1) < addr ||| 0x1e
  · have hlt' : (addr + 2 * (words.setWidth 32 - 1)).toNat < (addr ||| 0x1e).toNat := hlt
    refine ⟨words.toNat - 1, ?_, by omega, by omega, by omega⟩
    rw [if_pos hlt, hend1]
  · have hlt' : ¬ (addr + 2 * (words.setWidth 32 - 1)).toNat < (addr ||| 0x1e).toNat := hlt
    refine ⟨(30 - addr.toNat % 32 + addr.toNat % 2) / 2, ?_, by omega, by omega, by omega⟩
    rw [if_neg hlt, hend2]
    omega

/-! ## Addresses on the bus -/

theorem busAddr_toNat (addr : UInt) : (busAddr addr).toNat = addr.toNat % 2 ^ 23 := by
  rw [busAddr, BitVec.toNat_and]
  exact Nat.and_two_pow_sub_one_eq_mod _ 23

/-- What a slave has counted up to in a block -/
theorem busAddr_add_two {addr : UInt} (h : (addr.toNat + 2) / 32 = addr.toNat / 32) :
    busAddr (addr + 2) = busAddr addr + 2 := by
  have hlt := addr.isLt
  have hadd : (addr + 2).toNat = addr.toNat + 2 := by
    rw [BitVec.toNat_add]
    show (_ + 2) % _ = _
    omega
  apply BitVec.eq_of_toNat_eq
  rw [BitVec.toNat_add, busAddr_toNat, busAddr_toNat, hadd]
  show _ = (_ + 2) % _
  omega

/-! ## Lines -/

theorem firstDout_dal (s : Pru) (isDatob : Bool) : (s.firstDout isDatob).dal = s.dal := by
  unfold Pru.firstDout
  split <;> rfl

/-- The two halves of DAL -/
theorem setbyte_dal (s : Pru) (w : Word) :
    ((s.setbyte 0 (lowByte w)).setbyte 1 (highByte w)).dal = w := by
  show (lowByte w).setWidth 16 ||| ((highByte w).setWidth 16 <<< 8) = w
  apply BitVec.eq_of_getLsbD_eq
  intro i hi
  simp only [lowByte, highByte, BitVec.getLsbD_or, BitVec.getLsbD_shiftLeft,
    BitVec.getLsbD_setWidth, BitVec.getLsbD_ushiftRight]
  rcases Nat.lt_or_ge i 8 with h | h
  · simp [h, hi]
  · have : 8 + (i - 8) = i := by omega
    simp [hi, this, Nat.not_lt.mpr h, show i - 8 < 8 by omega, show i - 8 < 16 by omega]

/-- The data lines in a DOUT carry the word. -/
theorem doutData_eq (s : Pru) : doutData s = s.mailbox.dma.words s.dma.dataptr := by
  show (Pru.firstDout _ _).dal = _
  rw [firstDout_dal, setbyte_dal]

/-- BS7 has the place of bit 22. -/
theorem bs7_eq (addr : UInt) (w : Byte) (hw : w.getLsbD 5 = false) :
    ((if addr &&& iopageAddrBitmask ≠ 0 then bit 5 else 0) ||| w).getLsbD 5 =
      addr.getLsbD 22 := by
  have hand : addr &&& iopageAddrBitmask = if addr.getLsbD 22 then BitVec.twoPow 32 22 else 0 :=
    BitVec.and_twoPow addr 22
  rw [hand, BitVec.getLsbD_or, hw, Bool.or_false]
  cases addr.getLsbD 22 <;> decide

/-- SYNC leaves BS7 as it was written with WTBT. -/
theorem setbits_bs7 (cur val : Byte) :
    (QUniBone.setbits (QUniBone.setbits cur (bit 4 ||| bit 5) val) (bit 0) (bit 0)).getLsbD 5 =
      val.getLsbD 5 := by
  simp [QUniBone.setbits, bit]

theorem copyBit_getLsbD (a : Byte) {n i : ℕ} (hn : n < 8) (p : Bool) :
    (BusLatches.copyBit a n p).getLsbD i = if i = n then p else a.getLsbD i := by
  unfold BusLatches.copyBit QUniBone.setbits bit
  by_cases hi : i < 8
  · by_cases h : i = n
    · subst h
      cases p <;> simp [hi]
    · cases p <;> simp [BitVec.getLsbD_twoPow, hi, h]
  · have h : i ≠ n := by omega
    rw [if_neg h, BitVec.getLsbD_of_ge _ _ (by omega), BitVec.getLsbD_of_ge _ _ (by omega)]

/-- The copy of BS7 in register 2 comes back to what was written there. -/
theorem copyBit_bs7 (a : Byte) (p : Bool) :
    BusLatches.copyBit (BusLatches.copyBit (a &&& 0x7f) 6 p) 6 (a.getLsbD 6) &&& 0x7f =
      a &&& 0x7f := by
  apply BitVec.eq_of_getLsbD_eq
  intro i hi
  rw [BitVec.getLsbD_and, BitVec.getLsbD_and, copyBit_getLsbD _ (by decide),
    copyBit_getLsbD _ (by decide)]
  by_cases h : i = 6
  · rw [if_pos h, h]
  · rw [if_neg h, if_neg h, BitVec.getLsbD_and, Bool.and_assoc, Bool.and_self]

/-- The registers 0, 1 and 2 hold the address. -/
theorem lines_eq (addr : UInt) :
    (((addr.setWidth 8 : Byte).setWidth 32 : UInt) |||
        (((addr >>> 8).setWidth 8 : Byte).setWidth 32 <<< 8) |||
        ((((addr >>> 16).setWidth 8 : Byte) &&& 0x7f).setWidth 32 <<< 16)) = busAddr addr := by
  apply BitVec.eq_of_getLsbD_eq
  intro i hi
  have hmask : ∀ i < 32, (0x7fffff : UInt).getLsbD i = decide (i < 23) := by decide
  have hlow : ∀ i < 8, (0x7f : Byte).getLsbD i = decide (i < 7) := by decide
  simp only [busAddr, BitVec.getLsbD_or, BitVec.getLsbD_and, BitVec.getLsbD_shiftLeft,
    BitVec.getLsbD_setWidth, BitVec.getLsbD_ushiftRight, hmask i hi]
  -- the byte that a bit is in
  rcases Nat.lt_or_ge i 8 with h | h
  · simp [h, hi, show i < 16 by omega, show i < 23 by omega]
  rcases Nat.lt_or_ge i 16 with h' | h'
  · simp [hi, h', show 8 + (i - 8) = i by omega, Nat.not_lt.mpr h, show i - 8 < 8 by omega,
      show i < 23 by omega, show i - 8 < 32 by omega]
  rcases Nat.lt_or_ge i 24 with h'' | h''
  · have h7f : (0x7f : Byte).getLsbD (i - 16) = decide (i < 23) := by
      rw [hlow _ (by omega), decide_eq_decide]
      omega
    rw [h7f]
    simp [hi, show 16 + (i - 16) = i by omega, Nat.not_lt.mpr h, Nat.not_lt.mpr h',
      show ¬ i - 8 < 8 by omega, show i - 16 < 8 by omega, show i - 16 < 32 by omega]
  · simp [hi, Nat.not_lt.mpr h, Nat.not_lt.mpr h', show ¬ i - 8 < 8 by omega,
      show ¬ i - 16 < 8 by omega, show ¬ i < 23 by omega]

/-- The writes of the address phase -/
def putAddr (b : BusLatches) (addr : UInt) (val : Byte) : BusLatches :=
  let b := (b.setbyte 0 (addr.setWidth 8)).setbyte 1 ((addr >>> 8).setWidth 8)
  let b := b.setbyte 2 ((addr >>> 16).setWidth 8)
  (b.setbits 4 (bit 4 ||| bit 5) val).setbits 4 (bit 0) (bit 0)

theorem putAddr_driven (b : BusLatches) (addr : UInt) (val : Byte)
    (hval : val.getLsbD 5 = addr.getLsbD 22) :
    (putAddr b addr val).driven 0 = addr.setWidth 8 ∧
      (putAddr b addr val).driven 1 = (addr >>> 8).setWidth 8 ∧
      (putAddr b addr val).driven 2 &&& (0x7f : Byte) =
        ((addr >>> 16).setWidth 8 : Byte) &&& 0x7f := by
  refine ⟨rfl, rfl, ?_⟩
  let merged := QUniBone.setbits (b.curRegVal 4) (bit 4 ||| bit 5) val
  have hdriven : (putAddr b addr val).driven 2 =
      BusLatches.copyBit (BusLatches.copyBit (((addr >>> 16).setWidth 8 : Byte) &&& 0x7f) 6
        (merged.getLsbD 5)) 6 ((QUniBone.setbits merged (bit 0) (bit 0)).getLsbD 5) := rfl
  have hbit : val.getLsbD 5 = ((addr >>> 16).setWidth 8 : Byte).getLsbD 6 := by
    rw [hval, BitVec.getLsbD_setWidth, BitVec.getLsbD_ushiftRight]
    rfl
  rw [hdriven, setbits_bs7, hbit, copyBit_bs7]

/-- At SYNC, DAL and BS7 carry the address. -/
theorem addr_lines (s : Pru) (h : s.smDmaStateAddr.1 ≠ none) :
    Pru.addressLines (fun reg _ => s.smDmaStateAddr.2.latches.driven reg) =
      busAddr s.mailbox.dma.curAddr := by
  let addr := s.mailbox.dma.curAddr
  let wtbt : Byte := if cycleIsDato s.mailbox.dma.buscycle then bit 4 else 0
  have hwtbt : wtbt.getLsbD 5 = false := by
    show (if cycleIsDato s.mailbox.dma.buscycle then bit 4 else 0 : Byte).getLsbD 5 = false
    cases cycleIsDato s.mailbox.dma.buscycle <;> decide
  have hlatches : s.smDmaStateAddr.2.latches =
      putAddr s.latches addr ((if addr &&& iopageAddrBitmask ≠ 0 then bit 5 else 0) ||| wtbt) := by
    unfold Pru.smDmaStateAddr at h ⊢
    by_cases hstop : s.mailbox.dma.curStatus ≠ dmaStateRunning ∨ s.mailbox.dma.wordcount = 0
    · simp only [if_pos hstop] at h
      exact absurd rfl h
    · simp only [if_neg hstop]
      rfl
  obtain ⟨h0, h1, h2⟩ := putAddr_driven s.latches addr _ (bs7_eq addr wtbt hwtbt)
  rw [hlatches, Pru.addressLines, h0, h1, h2]
  exact lines_eq addr

end BlockMode

end QUniBone.PruQ
