import QUniBone.Adapter.Backplane
import QUniBone.Pru.Emulation

/-!
# The DDR RAM as ARM sees it

`ddrmem_c` (`arm/ddrmem.cpp`). The words lie in the shared RAM. The range that is emulated as
bus memory is kept twice, here and in the IO page map of the PRU.

* `DdrmemC`: the members of the class.
* `DdrmemC.exam`, `deposit`: access through the range.
* `DdrmemC.setRange`: a new range.
* `Agree`: both sides hold the same range.
-/

namespace QUniBone

open QUnibusAdapter (AddrSpace)

/-- `ddrmem_c` -/
structure DdrmemC where
  enabled : Bool
  qunibusStartaddr : UInt
  qunibusEndaddr : UInt
  pmiAddressOverlay : UInt

namespace DdrmemC

/-- The test in front of `deposit` and `exam`. -/
def inRange (d : DdrmemC) (addr : UInt) : Bool :=
  d.enabled && !decide (addr < d.qunibusStartaddr) && !decide (addr > d.qunibusEndaddr)

/-- `deposit` -/
def deposit (d : DdrmemC) (m : Ddrmem) (addr : UInt) (w : Word) : Option Ddrmem :=
  if d.inRange addr then some (m.setW addr w) else none

/-- `exam` -/
def exam (d : DdrmemC) (m : Ddrmem) (addr : UInt) : Option Word :=
  if d.inRange addr then some (m.getW addr) else none

/-- Whether `set_range` enables the emulation. -/
def enables (q : AddrSpace) (startaddr endaddr : UInt) : Bool :=
  decide (startaddr < q.addrSpaceByteCount) && decide (endaddr < q.addrSpaceByteCount) &&
    decide (startaddr ≤ endaddr)

/-- `set_range`: whether the range is accepted, and the range on both sides afterwards. -/
def setRange (q : AddrSpace) (startaddr endaddr : UInt) (d : DdrmemC) (pages : PruIopageRegisters) :
    Bool × DdrmemC × PruIopageRegisters :=
  let pages := { pages with iopageStartAddr := q.iopageStartAddr }
  let d := { d with
    qunibusStartaddr := startaddr
    qunibusEndaddr := endaddr
    enabled := enables q startaddr endaddr }
  if !d.enabled then
    (true, d, { pages with memoryStartAddr := 0, memoryLimitAddr := 0 })
  else if endaddr ≥ q.iopageStartAddr then (false, d, pages)
  else if startaddr.getLsbD 0 then (false, d, pages)
  else if endaddr.getLsbD 0 then (false, d, pages)
  else (true, d, { pages with memoryStartAddr := startaddr, memoryLimitAddr := endaddr + 2 })

end DdrmemC

/-! ## Direct access -/

/-- `pmi_deposit`, `none` where an assertion ends the program. -/
def pmiDeposit (q : AddrSpace) (m : Ddrmem) (addr : UInt) (w : Word) : Option Ddrmem :=
  if addr.getLsbD 0 then none
  else if addr < q.iopageStartAddr then some (m.setW addr w)
  else none

/-- `pmi_exam` -/
def pmiExam (m : Ddrmem) (addr : UInt) : Option Word :=
  if addr.getLsbD 0 then none else some (m.getW addr)

/-- `qunibusadapter_c::is_rom` -/
def isRom (q : AddrSpace) (pages : PruIopageRegisters) (addr : UInt) : Option Bool :=
  if addr.getLsbD 0 then some false
  else if addr < q.iopageStartAddr then some false
  else if addr ≤ q.addrSpaceByteCount - 2 then
    some (pages.registerHandles (entry addr) == handleRom)
  else none

/-- The address space of the UNIBUS: 18 bits. -/
def unibus : AddrSpace := ⟨0o760000, 0o1000000⟩

/-! ## Two copies of the range -/

/-- The range is the same for ARM and for the PRU, and in front of the IO page. -/
inductive Agree (q : AddrSpace) (d : DdrmemC) (pages : PruIopageRegisters) : Prop
  | disabled : d.enabled = false → pages.memoryLimitAddr = 0 → Agree q d pages
  | enabled : d.enabled = true → pages.memoryStartAddr = d.qunibusStartaddr →
      pages.memoryLimitAddr = d.qunibusEndaddr + 2 → d.qunibusStartaddr ≤ d.qunibusEndaddr →
      d.qunibusEndaddr < q.iopageStartAddr → d.qunibusStartaddr.getLsbD 0 = false →
      d.qunibusEndaddr.getLsbD 0 = false → Agree q d pages

/-- A range that `set_range` does not refuse. -/
def Settable (q : AddrSpace) (startaddr endaddr : UInt) : Prop :=
  DdrmemC.enables q startaddr endaddr = true →
    endaddr < q.iopageStartAddr ∧ startaddr.getLsbD 0 = false ∧ endaddr.getLsbD 0 = false

theorem setRange_settable {q : AddrSpace} {startaddr endaddr : UInt} {d : DdrmemC}
    {pages : PruIopageRegisters} (h : Settable q startaddr endaddr) :
    (DdrmemC.setRange q startaddr endaddr d pages).1 = true ∧
      Agree q (DdrmemC.setRange q startaddr endaddr d pages).2.1
        (DdrmemC.setRange q startaddr endaddr d pages).2.2 := by
  cases he : DdrmemC.enables q startaddr endaddr with
  | false =>
    simp only [DdrmemC.setRange, he, Bool.not_false, if_true, true_and]
    exact .disabled rfl rfl
  | true =>
    obtain ⟨hend, hs, heven⟩ := h he
    have hnot : ¬ endaddr ≥ q.iopageStartAddr := BitVec.not_le.mpr hend
    simp only [DdrmemC.setRange, he, hs, heven, Bool.not_true, Bool.false_eq_true, if_false,
      if_neg hnot, true_and]
    refine .enabled rfl rfl rfl ?_ hend hs heven
    simp only [DdrmemC.enables, Bool.and_eq_true, decide_eq_true_eq] at he
    exact he.2

/-- Every other range is refused, and ARM keeps it all the same. -/
theorem setRange_refused {q : AddrSpace} {startaddr endaddr : UInt} {d : DdrmemC}
    {pages : PruIopageRegisters} (h : ¬ Settable q startaddr endaddr) :
    (DdrmemC.setRange q startaddr endaddr d pages).1 = false ∧
      (DdrmemC.setRange q startaddr endaddr d pages).2.1 =
        { d with qunibusStartaddr := startaddr, qunibusEndaddr := endaddr, enabled := true } ∧
      (DdrmemC.setRange q startaddr endaddr d pages).2.2 =
        { pages with iopageStartAddr := q.iopageStartAddr } := by
  unfold Settable at h
  push Not at h
  obtain ⟨he, h⟩ := h
  simp only [DdrmemC.setRange, he, Bool.not_true, Bool.false_eq_true, if_false]
  by_cases hend : endaddr ≥ q.iopageStartAddr
  · rw [if_pos hend]
    exact ⟨rfl, rfl, rfl⟩
  rw [if_neg hend]
  cases hs : startaddr.getLsbD 0 with
  | true =>
    rw [if_pos rfl]
    exact ⟨rfl, rfl, rfl⟩
  | false =>
    have hodd := h (BitVec.not_le.mp hend) hs
    rw [if_neg (by decide), if_pos (by simpa using hodd)]
    exact ⟨rfl, rfl, rfl⟩

/-- The overlay has nothing to do with it. -/
theorem Agree.overlay {q : AddrSpace} {d : DdrmemC} {pages : PruIopageRegisters}
    (h : Agree q d pages) (overlay : UInt) :
    Agree q { d with pmiAddressOverlay := overlay } pages := by
  cases h with
  | disabled hoff hzero => exact .disabled hoff hzero
  | enabled hon hstart hlimit hle hend hs heven =>
    exact .enabled hon hstart hlimit hle hend hs heven

section Answers

variable {q : AddrSpace} {d : DdrmemC} {e : Emulation}

/-- The PRU emulates nothing in the IO page. -/
theorem Agree.lt_iopage (h : Agree q d e.pages) (hq : q.iopageStartAddr.getLsbD 0 = false)
    {addr : UInt} (ha : e.isMemory addr = true) : addr < q.iopageStartAddr := by
  simp only [Emulation.isMemory, Bool.and_eq_true, decide_eq_true_eq] at ha
  cases h with
  | disabled _ hlimit =>
    rw [hlimit] at ha
    exact absurd ha.1 (BitVec.not_lt_zero)
  | enabled _ _ hlimit _ hend _ heven =>
    rw [hlimit] at ha
    rw [BitVec.getLsbD, Nat.testBit_zero, decide_eq_false_iff_not] at hq heven
    have hlow := ha.1
    rw [BitVec.lt_def, BitVec.toNat_add] at hlow
    rw [BitVec.lt_def] at hend ⊢
    have htwo : (2 : UInt).toNat = 2 := rfl
    have := q.iopageStartAddr.isLt
    omega

/-- The byte behind the last word of the range is memory for the PRU only. -/
theorem Agree.inRange_iff (h : Agree q d e.pages) (hq : q.iopageStartAddr.getLsbD 0 = false)
    (addr : UInt) :
    d.inRange addr = e.isMemory addr ↔ ¬ (d.enabled = true ∧ addr = d.qunibusEndaddr + 1) := by
  cases h with
  | disabled hd hlimit =>
    simp only [DdrmemC.inRange, Emulation.isMemory, hd, hlimit, Bool.false_and, Bool.false_eq_true,
      false_and, not_false_eq_true, iff_true]
    have hnone : ¬ addr < 0 := BitVec.not_lt_zero
    rw [decide_eq_false hnone, Bool.false_and]
  | enabled hd hstart hlimit hle hend _ heven =>
    simp only [DdrmemC.inRange, Emulation.isMemory, hd, hlimit, hstart, Bool.true_and, true_and]
    rw [BitVec.getLsbD, Nat.testBit_zero, decide_eq_false_iff_not] at hq heven
    have hadd : (d.qunibusEndaddr + 2).toNat = d.qunibusEndaddr.toNat + 2 := by
      have := q.iopageStartAddr.isLt
      rw [BitVec.lt_def] at hend
      rw [BitVec.toNat_add]
      have htwo : (2 : UInt).toNat = 2 := rfl
      omega
    have hone : (d.qunibusEndaddr + 1).toNat = d.qunibusEndaddr.toNat + 1 := by
      rw [BitVec.toNat_add]
      have hone : (1 : UInt).toNat = 1 := rfl
      rw [BitVec.toNat_add] at hadd
      have htwo : (2 : UInt).toNat = 2 := rfl
      omega
    rw [← Bool.coe_iff_coe]
    simp only [Bool.and_eq_true, Bool.not_eq_true', decide_eq_false_iff_not, decide_eq_true_eq,
      BitVec.lt_def, BitVec.le_def, GT.gt, GE.ge, hadd, ← BitVec.toNat_inj, hone]
    rw [BitVec.le_def] at hle
    omega

/-- A range that is refused is never the one in force before. -/
theorem Agree.ne_refused (h : Agree q d e.pages) {startaddr endaddr : UInt}
    (hset : ¬ Settable q startaddr endaddr) :
    ¬ ∀ addr, DdrmemC.inRange
      { d with qunibusStartaddr := startaddr, qunibusEndaddr := endaddr, enabled := true } addr =
        d.inRange addr := by
  intro hall
  unfold Settable at hset
  push Not at hset
  obtain ⟨he, hset⟩ := hset
  simp only [DdrmemC.enables, Bool.and_eq_true, decide_eq_true_eq] at he
  replace hall := fun addr => Bool.coe_iff_coe.mpr (hall addr)
  simp only [DdrmemC.inRange, Bool.and_eq_true, Bool.not_eq_true', decide_eq_false_iff_not,
    BitVec.not_lt, true_and, GT.gt] at hall
  cases h with
  | disabled hd _ =>
    have hstart := (hall startaddr).mp ⟨BitVec.le_refl _, he.2⟩
    exact absurd (hd.symm.trans hstart.1.1) Bool.false_ne_true
  | enabled hd _ _ hle hend hs heven =>
    have hstart : startaddr = d.qunibusStartaddr :=
      BitVec.le_antisymm ((hall d.qunibusStartaddr).mpr ⟨⟨hd, BitVec.le_refl _⟩, hle⟩).1
        ((hall startaddr).mp ⟨BitVec.le_refl _, he.2⟩).1.2
    have hlast : endaddr = d.qunibusEndaddr :=
      BitVec.le_antisymm ((hall endaddr).mp ⟨he.2, BitVec.le_refl _⟩).2
        ((hall d.qunibusEndaddr).mpr ⟨⟨hd, hle⟩, BitVec.le_refl _⟩).2
    subst hstart hlast
    exact hset hend hs heven

end Answers

end QUniBone
