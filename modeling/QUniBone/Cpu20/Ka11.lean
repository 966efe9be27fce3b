import QUniBone.Cpu.Alu
import QUniBone.Lib.Prog
import QUniBone.Lib.Loop

/-!
# The KA11: state, bus cycles, operands

The part of `cpu20/ka11.c` in front of `step()`. As for the KD11-EA, code which may leave through
`goto be` is an `M` program that throws. Tracing and the mutex are left out.

* `Ka11`, `Machine`: the processor, and what happened on its bus.
* `dati`, `dato`: bus cycles.
* `addrop`, `fetchop`, `writedest`: operands.
-/

namespace QUniBone

/-- `struct KA11` -/
structure Ka11 where
  r : RegIdx → Word
  b : Word
  ba : Word
  bdata : Word
  ir : Word
  psw : BitVec 8
  traps : Traps
  be : ℕ
  state : CpuState
  externalIntr : Bool
  externalIntrvec : Word
  sw : Word
  swabVbit : Bool

namespace Ka11

open Prog

/-- The processor and its past -/
structure Machine where
  cpu : Ka11
  log : BusLog
  /-- The PSW has been loaded since the last interrupt vector was received. No code reads it. -/
  loaded : Bool

/-- `step()` code: it reads and writes the machine and may `goto be`. -/
abbrev M := EStateM Unit Machine

/-- The PSW as a word -/
def pswWord (cpu : Ka11) : Word := cpu.psw.setWidth 16

/-- `cpu->r[i] = w` -/
def setR (cpu : Ka11) (i : RegIdx) (w : Word) : Ka11 :=
  { cpu with r := Function.update cpu.r i w }

/-- `ka11_reset` -/
def reset (cpu : Ka11) : Ka11 := { cpu with traps := ⟨false, false⟩, externalIntr := false }

/-- `ubxt()` -/
def ubxt (a : Word) : UInt :=
  if a &&& 0o160000 = 0o160000 then a.setWidth 32 ||| 0o600000 else a.setWidth 32

namespace Machine

/-- Change the processor. -/
def mapCpu (m : Machine) (f : Ka11 → Ka11) : Machine := { m with cpu := f m.cpu }

/-- Record a bus event. -/
def onBus (m : Machine) (e : BusEvent) : Machine := { m with log := e :: m.log }

/-- `PSW = w`: a byte -/
def loadPsw (m : Machine) (w : Word) : Machine :=
  { m.mapCpu ({ · with psw := w.setWidth 8 }) with loaded := true }

/-- `levelchange(cpu->psw)` -/
def levelchange (m : Machine) : Machine :=
  m.onBus (.prioritylevelchange (m.cpu.pswWord >>> 5))

/-- The label `ok:` of `dati()` and `dato()` -/
def cycleOk (m : Machine) : Machine := m.mapCpu ({ · with be := 0 })

/-- The label `be:` of both -/
def cycleFailed (m : Machine) : Machine := m.mapCpu fun cpu => { cpu with be := cpu.be + 1 }

end Machine

/-- Change the processor. -/
def update (f : Ka11 → Ka11) : M Unit := modify (·.mapCpu f)

/-- Look at the processor. -/
def look {α : Type} (f : Ka11 → α) : M α := fun m => .ok (f m.cpu) m

/-! ## Bus cycles -/

/-- What is inside the processor at an address -/
inductive Internal
  /-- nothing: the bus is asked -/
  | none
  /-- the odd byte of the PSW does not respond -/
  | nonexistent
  | switches
  | psw
  /-- reads 0, and the bus is asked for writes -/
  | zero
  deriving DecidableEq

/-- `switch(cpu->ba&0377)` -/
def internal (ba : Word) : Internal :=
  if ba = 0o177570 ∨ ba = 0o177571 then .switches
  else if ba = 0o177776 then .psw
  else if ba = 0o177777 then .nonexistent
  else if ba = 0o177547 then .zero
  else .none

variable (bus : Bus)

/-- The answer of the bus -/
def busDati : M Unit := fun m =>
  let a := ubxt m.cpu.ba &&& ~~~1
  match bus.dati m.log a with
  | some d => .ok () ((m.onBus (.dati a (some d))).mapCpu ({ · with bdata := d })).cycleOk
  | none => .error () (m.onBus (.dati a none)).cycleFailed

/-- `dati` -/
def dati (byte : Bool) : M Unit := fun m =>
  if byte = false ∧ m.cpu.ba.odd then .error () m.cycleFailed
  else
    match internal m.cpu.ba with
    | .switches => .ok () (m.mapCpu fun cpu => { cpu with bdata := cpu.sw }).cycleOk
    | .psw => .ok () (m.mapCpu fun cpu => { cpu with bdata := cpu.pswWord }).cycleOk
    | .nonexistent => .error () m.cycleFailed
    | .zero => .ok () (m.mapCpu ({ · with bdata := 0 })).cycleOk
    | .none => busDati bus m

/-- `unibone_datob(ubxt(ba), bdata)`, or `unibone_dato(ubxt(ba)&~1, bdata)` -/
def busDato (byte : Bool) : M Unit := fun m =>
  let d := m.cpu.bdata
  if byte then
    let a := ubxt m.cpu.ba
    let success := bus.datob m.log a d
    let m := m.onBus (.datob a d success)
    if success then .ok () m.cycleOk else .error () m.cycleFailed
  else
    let a := ubxt m.cpu.ba &&& ~~~1
    let success := bus.dato m.log a d
    let m := m.onBus (.dato a d success)
    if success then .ok () m.cycleOk else .error () m.cycleFailed

/-- `dato` -/
def dato (byte : Bool) : M Unit := fun m =>
  if byte = false ∧ m.cpu.ba.odd then .error () m.cycleFailed
  else
    match internal m.cpu.ba with
    | .switches => .ok () m.cycleOk
    | .psw => .ok () (m.loadPsw m.cpu.bdata).levelchange.cycleOk
    | .nonexistent => .error () m.cycleFailed
    | .zero | .none => busDato bus byte m

/-! ## Operands -/

/-- `if((sp&~0377) == 0) traps |= TRAP_STACK` -/
def stackLimit (cpu : Ka11) (sp : Word) : Ka11 :=
  if sp &&& ~~~0o377 = 0 then { cpu with traps := { cpu.traps with stack := true } } else cpu

/-- `case 0` of `addrop`, REG: this is mode 1 already. -/
def addrReg (r : RegIdx) : M Unit := update fun cpu => { cpu with b := cpu.r r, ba := cpu.r r }

/-- `case 2` of `addrop`, INC -/
def addrInc (r : RegIdx) (ai : Word) : M Unit := do
  update fun cpu => { cpu with ba := cpu.r r }
  update fun cpu => { cpu.setR r (cpu.r r + ai) with b := cpu.r r + ai }

/-- `case 4` of `addrop`, DEC -/
def addrDec (r : RegIdx) (ai : Word) : M Unit := do
  update fun cpu => { cpu with b := cpu.r r - ai, ba := cpu.r r - ai }
  when (r = 6) (update fun cpu => stackLimit cpu cpu.ba)
  update fun cpu => cpu.setR r cpu.ba

/-- `case 6` of `addrop`, INDEX -/
def addrIndex (r : RegIdx) : M Unit := do
  update fun cpu => { cpu with ba := cpu.r 7 }
  update fun cpu => cpu.setR 7 (cpu.r 7 + 2)
  dati bus false
  update fun cpu => { cpu with b := cpu.bdata + cpu.r r, ba := cpu.bdata + cpu.r r }

/-- `if(m&1)` of `addrop` -/
def addrDeferred : M Unit := do
  dati bus false
  update fun cpu => { cpu with b := cpu.bdata, ba := cpu.bdata }

/-- `ai` -/
def autoincAmount (m : Word) (byte : Bool) : Word :=
  if !byte || m.reg == 6 || m.reg == 7 || m.addrMode.getLsbD 0 then 2 else 1

/-- `switch(m&6)` of `addrop`, but for REG -/
def addrSwitch (m : Word) (byte : Bool) : M Unit :=
  if m.addrMode &&& 6 = 2 then addrInc m.reg (autoincAmount m byte)
  else if m.addrMode &&& 6 = 4 then addrDec m.reg (autoincAmount m byte)
  else addrIndex bus m.reg

/-- `addrop`. Its callers see to it that the mode is not 0. -/
def addrop (m : Word) (byte : Bool) : M Unit :=
  if m.addrMode &&& 6 = 0 then addrReg m.reg
  else do
    addrSwitch bus m byte
    when (m.addrMode.getLsbD 0) (addrDeferred bus)

/-- The word `fetchop` starts from -/
def fetchWord (t : RegIdx) (m : Word) (byte : Bool) : M Unit :=
  if m.addrMode = 0 then update fun cpu => cpu.setR t (cpu.r m.reg)
  else do
    dati bus byte
    update fun cpu =>
      cpu.setR t (if byte && cpu.ba.odd then cpu.bdata >>> 8 else cpu.bdata)

/-- `fetchop` -/
def fetchop (t : RegIdx) (m : Word) (byte : Bool) : M Unit := do
  fetchWord bus t m byte
  when byte (update fun cpu => cpu.setR t (cpu.r t).sxt)

/-- `readop` -/
def readop (t : RegIdx) (m : Word) (byte : Bool) : M Unit := do
  addrop bus m byte
  fetchop bus t m byte

/-- `writedest` to a register -/
def writeRegister (d : RegIdx) (v : Word) (byte : Bool) : M Unit :=
  update fun cpu => cpu.setR d (if byte then Word.setmask (cpu.r d) v 0o377 else v)

/-- `writedest` to memory -/
def writeMemory (v : Word) (byte : Bool) : M Unit := do
  update fun cpu => { cpu with bdata := if cpu.ba.odd then v <<< 8 else v }
  dato bus byte

/-- `writedest` -/
def writedest (v : Word) (byte : Bool) : M Unit := do
  let ir ← look (·.ir)
  if ir.addrMode = 0 then writeRegister ir.reg v byte else writeMemory bus v byte

end Ka11

end QUniBone
