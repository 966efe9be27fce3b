import QUniBone.Cpu.Alu
import QUniBone.Cpu34.Kt11d
import QUniBone.Lib.Prog

/-!
# The KD11-EA: state, bus cycles, operands

The part of `cpu34/kd11ea.c` in front of `step()`. A `Machine` is the processor together with
what happened on its bus, and code which may leave through `goto be` is an `M` program that
throws.

Tracing and the console dumps are left out, as is the mutex around `external_intr`: the flag
is raised by a transition of its own, `setintr`.
-/

namespace QUniBone

/-- `struct KD11EA`. `autoinc` is `autoinc_reg` with `autoinc_amount`, `none` being -1. -/
structure Kd11ea where
  r : RegIdx → Word
  b : Word
  ba : Word
  bdata : Word
  ir : Word
  psw : Word
  stackpointer : Space → Word
  traps : Traps
  be : ℕ
  state : CpuState
  trapVector : Word
  autoinc : Option (RegIdx × Word)
  mmu : Kt11d
  externalIntr : Bool
  externalIntrvec : Word
  sw : Word

/-- What the processor did, as far as its bus does not show it. No code reads this record:
it is there to say what MMR0 to MMR2 are a record of. -/
inductive CpuEvent where
  /-- An instruction begins. -/
  | started
  /-- The opcode at `pc` was fetched. -/
  | fetched (pc : Word)
  /-- An addressing mode added `amount` to a register. -/
  | regChange (reg : RegIdx) (amount : Word)
  /-- An abort of the unfrozen KT11-D, with MMR0 to MMR2 as it left them. -/
  | abort (mmr0 mmr1 mmr2 : Word)
  /-- The program wrote MMR0, which then holds `mmr0`. -/
  | mmr0Write (mmr0 : Word)
  /-- INIT reached the KT11-D. -/
  | init
  /-- A reference was answered inside the processor. -/
  | internalRef (pa : UInt)

/-- The processor and its past, the latest event first. -/
structure Machine where
  cpu : Kd11ea
  bus : BusLog
  hist : List CpuEvent

/-- `step()` code: it reads and writes the machine and may `goto be`. -/
abbrev M := EStateM Unit Machine

namespace Kd11ea

/-! ## The processor status word -/

/-- `PSW_MASK`: the bits implemented. -/
abbrev pswMask : Word := 0o170377

/-- `PSW_T`. -/
abbrev pswT : Word := 0o20

/-- `PSW_PR`. -/
abbrev pswPr : Word := 0o340

/-- `IS_KERNEL`. -/
def isKernel (cpu : Kd11ea) : Bool := cpu.psw.mode == Mode.kernel

/-- `kd11ea_set_psw`, less the call of the arbitrator. -/
def setPsw (cpu : Kd11ea) (newpsw : Word) : Kd11ea :=
  let newpsw := newpsw &&& pswMask
  let oldsp := cpu.psw.mode.space
  let newsp := newpsw.mode.space
  let cpu :=
    if oldsp ≠ newsp then
      { cpu with
        stackpointer := Function.update cpu.stackpointer oldsp (cpu.r 6)
        r := Function.update cpu.r 6 (cpu.stackpointer newsp) }
    else cpu
  { cpu with psw := newpsw, mmu := cpu.mmu.setModes newpsw }

/-- `kd11ea_reset`. -/
def reset (cpu : Kd11ea) : Kd11ea :=
  { cpu with traps := ⟨false, false⟩, externalIntr := false, mmu := cpu.mmu.init }

/-- `kd11ea_power_reset`, less its `kd11ea_set_psw(cpu, 0)`. -/
def powerReset (cpu : Kd11ea) : Kd11ea :=
  { cpu.reset with
    mmu := Kt11d.reset
    stackpointer := fun _ => 0
    trapVector := 4
    autoinc := none }

/-! ## Autoincrement -/

/-- `autoinc_pending`. -/
def autoincPending (cpu : Kd11ea) (r : RegIdx) (amount : Word) : Kd11ea :=
  { cpu with autoinc := some (r, amount) }

/-- `autoinc_commit`. -/
def autoincCommit (cpu : Kd11ea) : Kd11ea := { cpu with autoinc := none }

/-- `autoinc_undo`. -/
def autoincUndo (cpu : Kd11ea) : Kd11ea :=
  match cpu.autoinc with
  | some (r, amount) =>
      { cpu with r := Function.update cpu.r r (cpu.r r - amount), autoinc := none }
  | none => cpu

/-- `cpu->r[i] = w`. -/
def setR (cpu : Kd11ea) (i : RegIdx) (w : Word) : Kd11ea :=
  { cpu with r := Function.update cpu.r i w }

/-- `set_dest_ref`. -/
def setDestRef (cpu : Kd11ea) (isDest : Bool) : Kd11ea :=
  { cpu with mmu := { cpu.mmu with destRef := isDest } }

/-- `SPACE_KERNEL`. -/
def spaceKernel (cpu : Kd11ea) : Kd11ea :=
  { cpu with mmu := cpu.mmu.setAccess .kernel Mode.kernel }

/-- `SPACE_PREV`. -/
def spacePrev (cpu : Kd11ea) : Kd11ea :=
  { cpu with mmu := cpu.mmu.setAccess cpu.mmu.prevSpace cpu.mmu.prevMode }

/-- `SPACE_RESTORE`. -/
def spaceRestore (cpu : Kd11ea) : Kd11ea :=
  { cpu with mmu := cpu.mmu.setAccess cpu.mmu.space cpu.mmu.mode }

/-- The registers `dati()` answers by itself. -/
def readInternal (cpu : Kd11ea) (pa : UInt) : Option Word :=
  if pa < 0o760000 then none
  else
    match cpu.mmu.readReg (pa &&& ~~~1) with
    | some w => some w
    | none =>
        if pa = 0o777570 ∨ pa = 0o777571 then some cpu.sw
        else if pa = 0o777776 ∨ pa = 0o777777 then some (cpu.psw &&& pswMask)
        else if pa = 0o777547 then some 0
        else none

end Kd11ea

namespace Machine

/-- Change the processor. -/
def mapCpu (m : Machine) (f : Kd11ea → Kd11ea) : Machine := { m with cpu := f m.cpu }

/-- Record a bus event. -/
def onBus (m : Machine) (e : BusEvent) : Machine := { m with bus := e :: m.bus }

/-- Record what the processor did. -/
def note (m : Machine) (e : CpuEvent) : Machine := { m with hist := e :: m.hist }

/-- `kd11ea_set_psw`. -/
def setPsw (m : Machine) (newpsw : Word) : Machine :=
  (m.mapCpu (·.setPsw newpsw)).onBus
    (.prioritylevelchange ((newpsw &&& Kd11ea.pswMask) >>> 5 &&& 7))

/-- `kd11ea_reset`. -/
def reset (m : Machine) : Machine := (m.mapCpu Kd11ea.reset).note .init

/-- The result of `kt11d_relocate` for the address in `ba`, `none` being an abort. -/
def physical (m : Machine) (access : Access) : Option UInt :=
  (m.cpu.mmu.relocate m.cpu.ba m.cpu.mmu.accessSpace access).2

/-- The machine `kt11d_relocate` leaves. -/
def translated (m : Machine) (access : Access) : Machine :=
  let mmu := (m.cpu.mmu.relocate m.cpu.ba m.cpu.mmu.accessSpace access).1
  let m' := m.mapCpu fun cpu => { cpu with mmu := mmu }
  if m.physical access = none ∧ m.cpu.mmu.frozen = false then
    m'.note (.abort mmu.mmr0 mmu.mmr1 mmu.mmr2)
  else m'

/-! ## Bus cycles -/

/-- The label `ok:` of `dati()` and `dato()`. -/
def cycleOk (m : Machine) : Machine :=
  m.mapCpu fun cpu => { cpu with be := 0, autoinc := none }

/-- The labels `be:` and `abort:` of `dati()` and `dato()`. -/
def cycleFailed (m : Machine) (vector : Word) : Machine :=
  m.mapCpu fun cpu =>
    ({ cpu with trapVector := vector, be := cpu.be + 1 } : Kd11ea).autoincUndo

/-- The half of a word a write cycle changes. -/
def byteMask (byte : Bool) (pa : UInt) : Word :=
  if byte then (if pa.getLsbD 0 then 0o177400 else 0o377) else 0o177777

/-- The registers `dato()` writes by itself, from `bdata`. -/
def writeInternal (m : Machine) (pa : UInt) (byte : Bool) : Option Machine :=
  if pa < 0o760000 then none
  else
    match m.cpu.mmu.writeReg (pa &&& ~~~1) m.cpu.bdata (byteMask byte pa) with
    | some mmu =>
        let m := m.mapCpu fun cpu => { cpu with mmu := mmu }
        some (if pa &&& ~~~1 = 0o777572 then m.note (.mmr0Write mmu.mmr0) else m)
    | none =>
        -- the switches cannot be written
        if pa = 0o777570 ∨ pa = 0o777571 then some m
        -- T is not writable this way
        else if pa = 0o777776 ∨ pa = 0o777777 then
          some (m.setPsw
            (Word.setmask m.cpu.psw m.cpu.bdata (byteMask byte pa &&& ~~~Kd11ea.pswT)))
        else none

end Machine

namespace Kd11ea

open Prog

/-- Change the processor. -/
def update (f : Kd11ea → Kd11ea) : M Unit := modify (·.mapCpu f)

/-- Look at the processor. -/
def look {α : Type} (f : Kd11ea → α) : M α := fun m => .ok (f m.cpu) m

variable (bus : Bus)

/-- `dati`. -/
def dati (byte : Bool) : M Unit := fun m =>
  if byte = false ∧ m.cpu.ba.odd then .error () (m.cycleFailed 4)
  else
    let t := m.translated .read
    match m.physical .read with
    | none => .error () (t.cycleFailed Kt11d.abortVector)
    | some pa =>
        match t.cpu.readInternal pa with
        | some w => .ok () (((t.mapCpu ({ · with bdata := w })).note (.internalRef pa)).cycleOk)
        | none =>
            match bus.dati m.bus (pa &&& ~~~1) with
            | some d =>
                .ok () (((t.onBus (.dati (pa &&& ~~~1) (some d))).mapCpu
                  ({ · with bdata := d })).cycleOk)
            | none => .error () ((t.onBus (.dati (pa &&& ~~~1) none)).cycleFailed 4)

/-- `unibone_datob(pa, bdata)`, respectively `unibone_dato(pa&~1, bdata)`. -/
def writeAnswer (byte : Bool) (log : BusLog) (pa : UInt) (data : Word) : Bool :=
  if byte then bus.datob log pa data else bus.dato log (pa &&& ~~~1) data

/-- The record of that call. -/
def writeEvent (byte : Bool) (pa : UInt) (data : Word) (success : Bool) : BusEvent :=
  if byte then .datob pa data success else .dato (pa &&& ~~~1) data success

/-- `dato`. -/
def dato (byte : Bool) : M Unit := fun m =>
  if byte = false ∧ m.cpu.ba.odd then .error () (m.cycleFailed 4)
  else
    let t := m.translated .write
    match m.physical .write with
    | none => .error () (t.cycleFailed Kt11d.abortVector)
    | some pa =>
        match t.writeInternal pa byte with
        | some t => .ok () ((t.note (.internalRef pa)).cycleOk)
        | none =>
            match writeAnswer bus byte m.bus pa m.cpu.bdata with
            | true => .ok () (t.onBus (writeEvent byte pa m.cpu.bdata true)).cycleOk
            | false =>
                .error () ((t.onBus (writeEvent byte pa m.cpu.bdata false)).cycleFailed 4)

/-! ## Operands -/

/-- A register change by an addressing mode, recorded in MMR1. -/
def logRegister (r : RegIdx) (amount : Word) : M Unit :=
  modify fun m =>
    (m.mapCpu fun cpu => { cpu with mmu := cpu.mmu.logRegister r amount }).note
      (.regChange r amount)

/-- `if(r == 6 && IS_KERNEL(cpu) && (ba&~0377) == 0) traps |= TRAP_STACK`. -/
def stackLimit (cpu : Kd11ea) (sp : Word) : Kd11ea :=
  if cpu.isKernel ∧ sp &&& ~~~0o377 = 0 then
    { cpu with traps := { cpu.traps with stack := true } }
  else cpu

/-- `case 0` of `addrop`, REG: this is mode 1 already. -/
def addrReg (r : RegIdx) : M Unit := update fun cpu => { cpu with b := cpu.r r, ba := cpu.r r }

/-- `case 2` of `addrop`, INC. -/
def addrInc (r : RegIdx) (ai : Word) : M Unit := do
  update fun cpu => { cpu with ba := cpu.r r }
  update fun cpu => { cpu.setR r (cpu.r r + ai) with b := cpu.r r + ai }
  update (·.autoincPending r ai)
  logRegister r ai

/-- `case 4` of `addrop`, DEC. -/
def addrDec (r : RegIdx) (ai : Word) : M Unit := do
  update fun cpu => { cpu with b := cpu.r r - ai, ba := cpu.r r - ai }
  when (r = 6) (update fun cpu => stackLimit cpu cpu.ba)
  update fun cpu => cpu.setR r cpu.ba
  logRegister r (-ai)

/-- `case 6` of `addrop`, INDEX. -/
def addrIndex (r : RegIdx) : M Unit := do
  update fun cpu => { cpu with ba := cpu.r 7 }
  update fun cpu => cpu.setR 7 (cpu.r 7 + 2)
  dati bus false
  update fun cpu => { cpu with b := cpu.bdata + cpu.r r, ba := cpu.bdata + cpu.r r }

/-- `if(m&1)` of `addrop`: the deferred modes read the address. -/
def addrDeferred : M Unit := do
  dati bus false
  update fun cpu => { cpu with b := cpu.bdata, ba := cpu.bdata }

/-- The amount a register changes by: 1 for a byte operand, but for SP, PC and a pointer. -/
def autoincAmount (m : Word) (byte : Bool) : Word :=
  if !byte || m.reg == 6 || m.reg == 7 || m.addrMode.getLsbD 0 then 2 else 1

/-- `switch(m&6)` of `addrop`, but for REG. -/
def addrSwitch (m : Word) (byte : Bool) : M Unit :=
  if m.addrMode &&& 6 = 2 then addrInc m.reg (autoincAmount m byte)
  else if m.addrMode &&& 6 = 4 then addrDec m.reg (autoincAmount m byte)
  else addrIndex bus m.reg

/-- `switch(m&6)` of `addrop`, with what follows it. -/
def addrForm (m : Word) (byte : Bool) : M Unit :=
  if m.addrMode &&& 6 = 0 then addrReg m.reg
  else do
    addrSwitch bus m byte
    when (m.addrMode.getLsbD 0) (addrDeferred bus)

/-- `addrop`, less its assertion that the mode is not 0, which every caller sees to. The
address of the operand is left in `ba`. -/
def addrop (m : Word) (byte : Bool) : M Unit := do
  update autoincCommit
  -- the references made here form the address and are not destination references
  let dest ← look (·.mmu.destRef)
  update (·.setDestRef false)
  addrForm bus m byte
  update (·.setDestRef dest)

/-- The word `fetchop` starts from. -/
def fetchWord (t : RegIdx) (m : Word) (byte : Bool) : M Unit :=
  if m.addrMode = 0 then update fun cpu => cpu.setR t (cpu.r m.reg)
  else do
    dati bus byte
    update fun cpu =>
      cpu.setR t (if byte && cpu.ba.odd then cpu.bdata >>> 8 else cpu.bdata)

/-- `fetchop`. -/
def fetchop (t : RegIdx) (m : Word) (byte : Bool) : M Unit := do
  fetchWord bus t m byte
  when byte (update fun cpu => cpu.setR t (cpu.r t).sxt)

/-- `readop`. -/
def readop (t : RegIdx) (m : Word) (byte : Bool) : M Unit := do
  update (·.setDestRef (t == 9))
  addrop bus m byte
  fetchop bus t m byte

/-- `addrdest`. -/
def addrdest (m : Word) (byte : Bool) : M Unit := do
  update (·.setDestRef true)
  addrop bus m byte

/-- `writedest` to a register. -/
def writeRegister (d : RegIdx) (v : Word) (byte : Bool) : M Unit :=
  update fun cpu => cpu.setR d (if byte then Word.setmask (cpu.r d) v 0o377 else v)

/-- `writedest` to memory. -/
def writeMemory (v : Word) (byte : Bool) : M Unit := do
  update fun cpu => { cpu with bdata := if cpu.ba.odd then v <<< 8 else v }
  dato bus byte

/-- `writedest`. -/
def writedest (v : Word) (byte : Bool) : M Unit := do
  update (·.setDestRef true)
  let ir ← look (·.ir)
  if ir.addrMode = 0 then writeRegister ir.reg v byte else writeMemory bus v byte

end Kd11ea

end QUniBone
