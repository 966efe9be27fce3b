import Mathlib.Logic.Function.Basic
import Mathlib.Tactic.Common
import Mathlib.Tactic.IntervalCases

/-!
# The CPU cores' common ground

What `cpu_core.h` and `cpu_bus_adapter.h` give both emulation cores: the machine words, the
condition codes `PSW<3:0>`, and the bus behind `unibone_dati()`, `unibone_dato()` and
`unibone_datob()`.

The bus is an arbitrary reactive environment. Each answer may depend on everything that has
happened on it before, so a theorem about every `Bus` is a theorem about every pattern of
answers and timeouts, and a memory is one particular `Bus`.
-/

namespace QUniBone

/-- `word`, a 16 bit machine word. -/
abbrev Word := BitVec 16

/-- `uint32`, also `uint`: the 32 bit unsigned numbers the cores calculate with. -/
abbrev UInt := BitVec 32

/-- Index into the register array `r[16]` of a core. -/
abbrev RegIdx := Fin 16

instance neZeroSixteen : NeZero (16 : ℕ) := ⟨by decide⟩

namespace Word

/-- `W(w)`: truncate to a machine word. -/
def ofUInt (w : UInt) : Word := w.setWidth 16

/-- `sgn()`: bit 15, as a truth value. -/
def sgn (w : Word) : Bool := w.getLsbD 15

/-- `sxt()`: the low byte, sign extended. -/
def sxt (w : Word) : Word := (w.setWidth 8).signExtend 16

/-- Bit 0: the byte lane, odd for the high byte. -/
def odd (w : Word) : Bool := w.getLsbD 0

/-- `w & 7` as a register number. -/
def reg (w : Word) : RegIdx := ⟨(w &&& 7).toNat, by
  have h : (w &&& 7).toNat ≤ 7 := by
    rw [BitVec.toNat_and]
    exact Nat.and_le_right
  omega⟩

/-- `m >> 3 & 7`: the addressing mode of an operand specifier. -/
def addrMode (m : Word) : BitVec 3 := m.extractLsb' 3 3

/-- `SETMASK(l, r, m)`: the bits of `r` where the mask is set, else those of `l`. -/
def setmask (l r m : Word) : Word := (l &&& ~~~m) ||| (r &&& m)

theorem getLsbD_setmask (l r m : Word) (i : ℕ) :
    (setmask l r m).getLsbD i = if m.getLsbD i then r.getLsbD i else l.getLsbD i := by
  by_cases hi : i < 16
  · cases hm : m.getLsbD i <;> simp [setmask, hi, hm, -BitVec.getLsbD_eq_getElem]
  · simp [BitVec.getLsbD_of_ge _ _ (Nat.le_of_not_lt hi)]

/-- Testing a word against a one bit mask. -/
theorem and_twoPow_bne (w : Word) {i : ℕ} (hi : i < 16) :
    (w &&& BitVec.twoPow 16 i != 0) = w.getLsbD i := by
  rw [BitVec.and_twoPow]
  cases w.getLsbD i with
  | false => rfl
  | true =>
      simp only [if_true, bne_iff_ne, ne_eq]
      interval_cases i <;> decide

/-- Words with no common set bit. -/
theorem getLsbD_of_disjoint {w m : Word} {i : ℕ} (h : w &&& m = 0) (hi : m.getLsbD i = true) :
    w.getLsbD i = false := by
  have hbit := congrArg (BitVec.getLsbD · i) h
  simpa only [BitVec.getLsbD_and, hi, Bool.and_true, BitVec.ofNat_eq_ofNat,
    BitVec.getLsbD_zero] using hbit

/-- Only bits of the mask are set. -/
theorem and_not_eq_zero {w m : Word} :
    w &&& ~~~m = 0 ↔ ∀ i, m.getLsbD i = false → w.getLsbD i = false := by
  constructor
  · intro h i hi
    by_cases hlt : i < 16
    · exact getLsbD_of_disjoint h (by simp [hlt, hi, -BitVec.getLsbD_eq_getElem])
    · exact BitVec.getLsbD_of_ge _ _ (by omega)
  · intro h
    apply BitVec.eq_of_getLsbD_eq
    intro i hlt
    cases hi : m.getLsbD i with
    | false => simp [h i hi, -BitVec.getLsbD_eq_getElem]
    | true => simp [hi, -BitVec.getLsbD_eq_getElem]

end Word

/-! ## Processor states -/

/-- `KD11EA_STATE_HALTED`, `KD11EA_STATE_RUNNING`, `KD11EA_STATE_WAITING`, and those of the
KA11. -/
inductive CpuState where
  | halted
  | running
  | waiting
deriving DecidableEq

/-- The flags of `traps`, `TRAP_STACK` and `TRAP_PWR`. -/
structure Traps where
  stack : Bool
  pwr : Bool

/-- `cpu->traps != 0`. -/
def Traps.any (t : Traps) : Bool := t.stack || t.pwr

/-! ## Condition codes -/

/-- `PSW<3:0>`. -/
structure CC where
  n : Bool
  z : Bool
  v : Bool
  c : Bool

namespace CC

/-- The codes held in `PSW<3:0>`. -/
def ofPsw (psw : Word) : CC :=
  ⟨psw.getLsbD 3, psw.getLsbD 2, psw.getLsbD 1, psw.getLsbD 0⟩

def toWord (cc : CC) : Word :=
  (if cc.n then 0o10 else 0) ||| (if cc.z then 0o4 else 0) |||
    (if cc.v then 0o2 else 0) ||| (if cc.c then 0o1 else 0)

/-- Replace `PSW<3:0>`, leaving the rest of the PSW alone. -/
def store (cc : CC) (psw : Word) : Word := Word.setmask psw cc.toWord 0o17

/-- `setnz()`. -/
def setnz (cc : CC) (w : Word) : CC := { cc with n := w.sgn, z := w == 0 }

/-- `CLCV`: clear C and V. -/
def clcv (cc : CC) : CC := { cc with v := false, c := false }

@[simp] theorem ofPsw_toWord (cc : CC) : ofPsw cc.toWord = cc := by
  rcases cc with ⟨n, z, v, c⟩
  cases n <;> cases z <;> cases v <;> cases c <;> rfl

/-- Storing the codes leaves every bit of the PSW above `<3:0>` as it was. -/
theorem store_getLsbD (cc : CC) (psw : Word) {i : ℕ} (hi : 4 ≤ i) :
    (cc.store psw).getLsbD i = psw.getLsbD i := by
  have hmask : (0o17 : Word).getLsbD i = false := by
    by_cases hlt : i < 16
    · interval_cases i <;> rfl
    · exact BitVec.getLsbD_of_ge _ _ (by omega)
  rw [store, Word.getLsbD_setmask, hmask]
  rfl

/-- Taking over `PSW<3:0>` of another PSW. -/
theorem store_ofPsw (old psw : Word) : (ofPsw old).store psw = Word.setmask psw old 0o17 := by
  apply BitVec.eq_of_getLsbD_eq
  intro i hi
  rw [store, Word.getLsbD_setmask, Word.getLsbD_setmask]
  split
  case isTrue hmask =>
    have hlt : i < 4 := by
      by_contra hge
      interval_cases i <;> first | omega | exact absurd hmask (by decide)
    have h := ofPsw_toWord (ofPsw old)
    simp only [ofPsw, CC.mk.injEq] at h
    interval_cases i <;> simp only [ofPsw] <;> tauto
  case isFalse => rfl

@[simp] theorem ofPsw_store (cc : CC) (psw : Word) : ofPsw (cc.store psw) = cc := by
  have hbit : ∀ i, i < 4 → (cc.store psw).getLsbD i = cc.toWord.getLsbD i := by
    intro i hi
    have hmask : (0o17 : Word).getLsbD i = true := by
      interval_cases i <;> rfl
    rw [store, Word.getLsbD_setmask, hmask]
    rfl
  have h := ofPsw_toWord cc
  simpa only [ofPsw, hbit 3 (by omega), hbit 2 (by omega), hbit 1 (by omega),
    hbit 0 (by omega)] using h

end CC

/-! ## The bus -/

/-- One call of a core into the bus adapter, with the adapter's answer. -/
inductive BusEvent where
  | dati (addr : UInt) (answer : Option Word)
  | dato (addr : UInt) (data : Word) (success : Bool)
  | datob (addr : UInt) (data : Word) (success : Bool)
  | grantInterrupts
  | prioritylevelchange (level : Word)
  | busInit

/-- A bus reference, as opposed to a call which transfers no data. -/
def BusEvent.isReference : BusEvent → Bool
  | .dati .. => true
  | .dato .. => true
  | .datob .. => true
  | _ => false

/-- What happened on the bus so far, the latest event first. -/
abbrev BusLog := List BusEvent

/-- How many bus references a log holds. -/
def BusLog.references (log : BusLog) : ℕ := log.countP BusEvent.isReference

/-- The environment of a core: its answer to each reference, given all that happened before.
`none`, respectively `false`, is a bus timeout. -/
structure Bus where
  dati : BusLog → UInt → Option Word
  dato : BusLog → UInt → Word → Bool
  datob : BusLog → UInt → Word → Bool

end QUniBone
