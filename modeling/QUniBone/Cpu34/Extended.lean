import QUniBone.Cpu.Eis
import QUniBone.Cpu34.Operate

/-!
# The KD11-EA: exact results of the extended instruction set

`MUL`, `DIV`, `ASH` and `ASHC` as instructions: from the operand that was fetched and the
registers at that time to the registers and condition codes they leave.

* `EisExact`: what each of them is to leave, `DIV` without an undefined operation.
* `eis_exact_iff`: the one division for which `step()` does not keep to it.
-/

namespace QUniBone.Kd11ea

open Prog Alu

/-- The instructions with an arithmetic result. -/
inductive EisOp where
  | mul
  | div
  | ash
  | ashc

def eisOpcode : EisOp → Word
  | .mul => 0o070000
  | .div => 0o071000
  | .ash => 0o072000
  | .ashc => 0o073000

/-- The word operand that was fetched. -/
def eisOperand (ir : Word) (m : Machine) : Word := operandValue false (dstOf ir) m.cpu

/-- The register pair of an instruction, as one number; an odd register is both halves. -/
def regPair (ir : Word) (m : Machine) : UInt :=
  pair (m.cpu.r (regOf ir)) (m.cpu.r (pairLow (regOf ir)))

/-- The machine with condition codes and registers changed. -/
def leaving (m : Machine) (cc : CC) (regs : Kd11ea → Kd11ea) : Machine :=
  m.mapCpu fun cpu => regs { cpu with psw := cc.store cpu.psw }

/-- A number of 32 bits into a register pair, its low word into an odd register. -/
def setPair (reg : RegIdx) (v : UInt) (cpu : Kd11ea) : Kd11ea :=
  if reg.val % 2 = 1 then cpu.setR reg (v.extractLsb' 0 16)
  else (cpu.setR reg (v.extractLsb' 16 16)).setR (reg + 1) (v.extractLsb' 0 16)

/-- Quotient and remainder into a register pair, which otherwise keeps its values. -/
def setQuotient (reg : RegIdx) : Option Pair → Kd11ea → Kd11ea
  | some (quot, rem), cpu => (cpu.setR reg quot).setR (pairLow reg) rem
  | none, cpu => cpu

/-- What an instruction is to make of the machine its operand was fetched in. -/
def EisExact (op : EisOp) (ir : Word) (m m' : Machine) : Prop :=
  match op with
  | .mul => ∃ r : UInt × CC, IsProduct (eisOperand ir m) (m.cpu.r (regOf ir)) r ∧
      m' = leaving m r.2 (setPair (regOf ir) r.1)
  | .div => (regOf ir).val % 2 = 0 →
      ∃ r, divLong (eisOperand ir m) (m.cpu.r (regOf ir)) (m.cpu.r (pairLow (regOf ir))) = some r ∧
        IsDivision (eisOperand ir m) (m.cpu.r (regOf ir)) (m.cpu.r (pairLow (regOf ir))) r ∧
        m' = leaving m r.2 (setQuotient (regOf ir) r.1)
  | .ash =>
      let r := shiftBy (shiftCount (eisOperand ir m)) (m.cpu.r (regOf ir)) (CC.ofPsw m.cpu.psw)
      m' = leaving m r.2 (·.setR (regOf ir) r.1)
  | .ashc =>
      let r := shiftBy (shiftCount (eisOperand ir m)) (regPair ir m) (CC.ofPsw m.cpu.psw)
      m' = leaving m r.2 (setPair (regOf ir) r.1)

variable {bus : Bus}

/-- The program of an instruction. -/
def eisProgram (bus : Bus) (op : EisOp) (ir : Word) : M Next :=
  match op with
  | .mul => mul bus ir
  | .div => div bus ir
  | .ash => ash bus ir
  | .ashc => ashc bus ir

theorem execute_eis {ir : Word} {op : EisOp} (hcode : ir &&& 0o177000 = eisOpcode op) :
    execute bus ir = eisProgram bus op ir := by
  have hhigh : ir &&& 0o170000 = 0o070000 := by
    rw [and_of_and hcode _ (by decide)]
    cases op <;> rfl
  have hbinary : binary bus ir = none := by
    simp only [binary, hhigh]
    simp
  have heis : eis bus ir = some (eisProgram bus op ir) := by
    simp only [eis, hhigh, hcode]
    cases op <;> simp [eisOpcode, eisProgram]
  rw [execute, hbinary, heis]
  rfl

theorem byteOf_eis {ir : Word} {op : EisOp} (hcode : ir &&& 0o177000 = eisOpcode op) :
    byteOf ir = false := by
  rw [byteOf_eq, and_of_and hcode _ (by decide)]
  cases op <;> rfl

/-- `RD_U` leaves the operand in the operand register. -/
theorem rdU_operand {ir : Word} {m m' : Machine} (h : rdU bus false ir m = .ok () m') :
    m'.cpu.r 9 = eisOperand ir m' := by
  have hvalue : Triple (fun _ => True) (rdU bus false ir)
      (fun _ s => s.cpu.r 9 = eisOperand ir s) fun _ => True := by
    refine Triple.bind (operand_value bus (t := 9) (by decide) (dstOf ir) false) fun _ s hs => ?_
    show s.cpu.r 9 = operandValue false (dstOf ir) (s.cpu.setR 8 (s.cpu.r 9))
    rw [operandValue_setR false (by decide), hs]
    exact sx_word _
  have hm := hvalue m trivial
  rwa [h] at hm

/-- The registers as the source stores them. -/
theorem setPair_eq (reg : RegIdx) (v : UInt) (cpu : Kd11ea) :
    (if reg.val % 2 = 1 then cpu.setR reg (Word.ofUInt v)
      else (cpu.setR reg (Word.ofUInt (v >>> 16))).setR (reg + 1) (Word.ofUInt v))
      = setPair reg v cpu := by
  have hlow : Word.ofUInt v = v.extractLsb' 0 16 := by
    apply BitVec.eq_of_getLsbD_eq
    intro i hi
    simp [Word.ofUInt]
  have hhigh : Word.ofUInt (v >>> 16) = v.extractLsb' 16 16 := by
    apply BitVec.eq_of_getLsbD_eq
    intro i hi
    simp [Word.ofUInt]
  rw [hlow, hhigh]
  rfl

/-! ## Runs -/

section

variable {m m' : Machine} {ir : Word}

theorem mul_run (hbyte : byteOf ir = false) (hread : rdU bus false ir m = .ok () m') :
    mul bus ir m = .ok (.service false)
      (leaving m' (Alu.mul (eisOperand ir m') (m'.cpu.r (regOf ir))).2
        (setPair (regOf ir) (Alu.mul (eisOperand ir m') (m'.cpu.r (regOf ir))).1)) := by
  unfold mul
  rw [hbyte, bind_ok _ hread, ← rdU_operand hread, leaving]
  simp only [← setPair_eq]
  rfl

theorem div_run (hbyte : byteOf ir = false) (hread : rdU bus false ir m = .ok () m') :
    div bus ir m = .ok (.service false)
      (leaving m' (Alu.div (eisOperand ir m') (m'.cpu.r (regOf ir))
          (m'.cpu.r (pairLow (regOf ir)))).2
        (setQuotient (regOf ir) (Alu.div (eisOperand ir m') (m'.cpu.r (regOf ir))
          (m'.cpu.r (pairLow (regOf ir)))).1)) := by
  have hstore : ∀ (reg : RegIdx) (r : Option Pair) (s : Machine),
      storeQuotient reg r s = .ok () (s.mapCpu (setQuotient reg r)) := by
    intro reg r s
    cases r <;> rfl
  unfold div
  rw [hbyte, bind_ok _ hread, ← rdU_operand hread, leaving]
  show (storeQuotient (regOf ir) _ >>= fun _ => svc) _ = _
  rw [bind_ok _ (hstore _ _ _)]
  rfl

theorem ash_run (hbyte : byteOf ir = false) (hread : rdU bus false ir m = .ok () m') :
    ash bus ir m = .ok (.service false)
      (leaving m' (Alu.ash (eisOperand ir m') (m'.cpu.r (regOf ir)) (CC.ofPsw m'.cpu.psw)).2
        (·.setR (regOf ir)
          (Alu.ash (eisOperand ir m') (m'.cpu.r (regOf ir)) (CC.ofPsw m'.cpu.psw)).1)) := by
  unfold ash
  rw [hbyte, bind_ok _ hread, ← rdU_operand hread]
  rfl

theorem ashc_run (hbyte : byteOf ir = false) (hread : rdU bus false ir m = .ok () m') :
    ashc bus ir m = .ok (.service false)
      (leaving m' (Alu.ashc (eisOperand ir m') (m'.cpu.r (regOf ir))
          (m'.cpu.r (pairLow (regOf ir))) (CC.ofPsw m'.cpu.psw)).2
        (setPair (regOf ir) (Alu.ashc (eisOperand ir m') (m'.cpu.r (regOf ir))
          (m'.cpu.r (pairLow (regOf ir))) (CC.ofPsw m'.cpu.psw)).1)) := by
  unfold ashc
  rw [hbyte, bind_ok _ hread, ← rdU_operand hread, leaving]
  simp only [← setPair_eq]
  rfl

end

/-- Once its operand is fetched, an instruction leaves what it is to leave, but for the one
division whose quotient is no `long`. -/
theorem eis_exact_iff {m m₁ m₂ : Machine} {ir : Word} {op : EisOp}
    (hfetch : fetch bus m = .ok ir m₁) (hread : rdU bus false ir m₁ = .ok () m₂)
    (hcode : ir &&& 0o177000 = eisOpcode op) :
    ∃ m', instruction bus m = .ok (.service false) m' ∧
      (EisExact op ir m₂ m' ↔
        ¬ (op = .div ∧ (regOf ir).val % 2 = 0 ∧ (regPair ir m₂).toInt = -2147483648 ∧
          (eisOperand ir m₂).toInt = -1)) := by
  have hbyte := byteOf_eis hcode
  rw [instruction, bind_ok _ hfetch, execute_eis hcode]
  cases op with
  | mul => exact ⟨_, mul_run hbyte hread, iff_of_true ⟨_, mul_exact _ _, rfl⟩ (by simp)⟩
  | div =>
      refine ⟨_, div_run hbyte hread, ?_⟩
      show ((regOf ir).val % 2 = 0 → ∃ r, _) ↔ _
      rw [divLong_eq, regPair]
      constructor
      · rintro hexact ⟨-, heven, hundefined⟩
        obtain ⟨r, hr, -⟩ := hexact heven
        rw [if_pos hundefined] at hr
        cases hr
      · intro hdefined heven
        rw [if_neg fun h => hdefined ⟨rfl, heven, h⟩]
        exact ⟨_, rfl, div_exact _ _ _, rfl⟩
  | ash =>
      refine ⟨_, ash_run hbyte hread, iff_of_true ?_ (by simp)⟩
      rw [ash_exact]
      rfl
  | ashc =>
      refine ⟨_, ashc_run hbyte hread, iff_of_true ?_ (by simp)⟩
      rw [ashc_exact]
      rfl

/-- The processor after a power reset, R0 and R1 holding -2^31 and R2 holding -1. -/
def dividing : Machine :=
  let m := created.powerReset
  m.mapCpu fun cpu => (cpu.setR 0 0o100000).setR 2 0o177777

/-- `MUL R2,R0`. -/
theorem eis_exact_iff_mul :
    ∃ m', instruction (userVectorBus fun _ => some 0o070002) dividing = .ok (.service false) m' ∧
      ∃ m₂, EisExact .mul 0o070002 m₂ m' := by
  obtain ⟨m', hdone, hexact⟩ := eis_exact_iff
    (show fetch (userVectorBus fun _ => some 0o070002) dividing = .ok 0o070002 _ from rfl) rfl
    (show _ = eisOpcode .mul from rfl)
  exact ⟨m', hdone, _, hexact.mpr (by simp)⟩

/-- `DIV R2,R0` calls `ldiv(-2147483648, -1)`. -/
theorem least_dividend_undefined :
    ¬ ∀ (bus : Bus) (m m₁ m₂ m' : Machine) (ir : Word) (op : EisOp),
      fetch bus m = .ok ir m₁ → rdU bus false ir m₁ = .ok () m₂ →
      ir &&& 0o177000 = eisOpcode op → instruction bus m = .ok (.service false) m' →
      EisExact op ir m₂ m' := by
  intro hall
  have hexact := hall (userVectorBus fun _ => some 0o071002) dividing _ _ _ 0o071002 .div
    rfl rfl rfl rfl
  obtain ⟨r, hr, -⟩ := hexact rfl
  have hnone : divLong 0o177777 0o100000 0 = none := by decide
  cases hnone.symm.trans hr

end QUniBone.Kd11ea
