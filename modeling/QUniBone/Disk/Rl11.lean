import QUniBone.Disk.Dma
import QUniBone.Lib.Span

/-!
# RL11, RLV11 and RLV12

`RL11_c` as a step relation. The bus adapter's thread runs `on_after_register_access()` and
`reset()`, the controller's thread runs `worker()`. `on_after_register_access_mutex` keeps a
command from starting while the worker has not yet returned to its wait, but `reset()` does not
take it.

A data transfer is made of pieces, one sector each. The worker reads the registers at the start
of each piece and writes them back at its end. In between the piece passes through the phases
`prepared`, `transfer`, `transferred` and `store`.

* `Registers`: what the controller keeps, and its operations under the names of the source.
* `State`, `Action`, `step`: the two threads, the bus adapter and INIT.
-/

namespace QUniBone.RL11

open Disk

/-- `RL11_CMD_*` -/
inductive Function
  | noop
  | writeCheck
  | getStatus
  | seek
  | readHeader
  | writeData
  | readData
  | readDataWithoutHeaderCheck
  deriving DecidableEq

/-- CS bits 1 to 3 -/
def Function.ofBits : ℕ → Function
  | 0 => .noop
  | 1 => .writeCheck
  | 2 => .getStatus
  | 3 => .seek
  | 4 => .readHeader
  | 5 => .writeData
  | 6 => .readData
  | _ => .readDataWithoutHeaderCheck

/-- The functions that `state_readwrite()` serves. -/
def Function.isTransfer : Function → Bool
  | .writeCheck | .writeData | .readData | .readDataWithoutHeaderCheck => true
  | _ => false

/-- `RL11_STATE_*` -/
inductive ControllerState
  | controllerReady
  | controllerBusy
  | seekInit
  | rwInit
  | rwDisk
  deriving DecidableEq

/-- Is it a bus of this size, and has the controller a register BAE? -/
structure Config where
  /-- `addr_space_byte_count` -/
  space : ℕ
  busregBAE : Bool

structure Registers where
  qunibusAddressMsb : ℕ
  busregBA : BitVec 16
  busregDA : BitVec 16
  /-- `active_dato_flipflops` of MP -/
  busregMP : BitVec 16
  functionCode : Function
  interruptEnable : Bool
  selectedDriveUnitno : ℕ
  state : ControllerState
  errorOperationIncomplete : Bool
  errorDmaTimeout : Bool
  errorWritecheck : Bool
  errorHeaderNotFound : Bool
  deriving DecidableEq

namespace Registers

def getQunibusAddress (r : Registers) : ℕ := r.qunibusAddressMsb * 2 ^ 16 + r.busregBA.toNat

def updateQunibusAddress (r : Registers) (addr : ℕ) : Registers :=
  { r with
    qunibusAddressMsb := addr / 2 ^ 16
    busregBA := BitVec.ofNat 16 addr &&& 0xfffe }

def getMPWordcount (r : Registers) : ℕ := (0x10000 - r.busregMP.toNat) % 0x10000

def setMPWordcount (r : Registers) (wordcount : ℕ) : Registers :=
  { r with busregMP := BitVec.ofNat 16 (0x10000 - wordcount) }

def clearErrors (r : Registers) : Registers :=
  { r with
    errorOperationIncomplete := false
    errorDmaTimeout := false
    errorWritecheck := false
    errorHeaderNotFound := false }

def changeState (r : Registers) (state : ControllerState) : Registers := { r with state := state }

/-- The fields of CS but for CRDY. Bits of `qunibus_address_msb` above <17:16> stay. -/
def writeCS (r : Registers) (w : BitVec 16) : Registers :=
  { r with
    selectedDriveUnitno := (w >>> 8 &&& 3).toNat
    functionCode := .ofBits (w >>> 1 &&& 7).toNat
    qunibusAddressMsb := r.qunibusAddressMsb / 4 * 4 + (w >>> 4 &&& 3).toNat
    interruptEnable := w.getLsbD 6 }

/-- `reset()`. The value written to MP stays. -/
def reset (r : Registers) : Registers :=
  { r.clearErrors with
    qunibusAddressMsb := 0
    busregBA := 0
    busregDA := 0
    functionCode := .noop
    interruptEnable := false
    selectedDriveUnitno := 0
    state := .controllerReady }

/-- What the registers say is to be transferred. -/
def span (r : Registers) : Span := ⟨r.getQunibusAddress, r.getMPWordcount⟩

def Within (r : Registers) (space : ℕ) : Prop := r.span.Within 2 space

instance decidableWithin (r : Registers) (space : ℕ) : Decidable (r.Within space) :=
  inferInstanceAs (Decidable (Span.Within _ _ _))

end Registers

/-- words of a sector, and of `silo` and `silo_compare` -/
def sectorWordcount : ℕ := 128

/-- The local variables of `state_readwrite()`. -/
structure Piece where
  unit : ℕ
  qunibusAddress : ℕ
  cmdWordcount : ℕ
  diskAddress : BitVec 16
  /-- the sector that passes the heads next -/
  sector : BitVec 16
  /-- what `DMA()` was called with -/
  call : Option DmaCall
  /-- the words it has transferred, if all of them -/
  moved : Option (List BusWord)
  deriving DecidableEq

def Piece.dmaWordcount (p : Piece) : ℕ :=
  if p.cmdWordcount > sectorWordcount then sectorWordcount else p.cmdWordcount

/-- Where `worker()` is. -/
inductive Worker
  | waiting
  /-- the condition variable was signalled -/
  | signalled
  /-- before the `switch`, perhaps waiting for a seek to end -/
  | dispatching
  /-- at `while (state != RL11_STATE_CONTROLLER_READY)` -/
  | looping
  | prepared (p : Piece)
  /-- `DMA()` waits for its request -/
  | transfer (p : Piece) (d : DmaCall)
  | transferred (p : Piece)
  | store (p : Piece)
  /-- the 200 ms of `do_operation_incomplete()` -/
  | incomplete
  /-- an assertion has failed -/
  | dead
  deriving DecidableEq

structure State where
  regs : Registers
  lineINIT : Bool
  dmaRequest : DmaRequest
  worker : Worker
  /-- the last command started -/
  command : Command
  history : List Event

namespace State

def log (s : State) (e : Event) : State := { s with history := e :: s.history }

def fail (s : State) : State := { s.log .failed with worker := .dead }

/-- The worker changes registers. -/
def update (s : State) (r : Registers) : State := { s.log (.updated s.command) with regs := r }

/-- `do_command_done()`. `INTR()` does nothing during INIT. -/
def doCommandDone (s : State) : State :=
  let done := s.update (s.regs.changeState .controllerReady)
  if s.regs.interruptEnable = true ∧ s.regs.state ≠ .controllerReady ∧ s.lineINIT = false then
    done.log (.raised s.command)
  else done

/-- the end of `do_operation_incomplete()` -/
def operationIncomplete (s : State) : State :=
  { s with regs := { s.regs with errorOperationIncomplete := true } }.doCommandDone

/-- `pthread_cond_signal()` -/
def signal (s : State) : State := { s with worker := .signalled }

def stateSeek (s : State) (driveReady : Bool) : State :=
  if driveReady then s.doCommandDone else s.operationIncomplete

/-- GO: a new command, with its own number. -/
def start (s : State) : State :=
  let c : Command :=
    ⟨s.command.id + 1, s.regs.selectedDriveUnitno, s.regs.busregDA.toNat,
      s.regs.getQunibusAddress, s.regs.getMPWordcount, false⟩
  { s.log (.started c) with
    regs := s.regs.clearErrors.changeState .controllerBusy
    command := c }

/-- The `switch (function_code)` of `on_after_register_access()`. -/
def go (s : State) (seeking driveReady : Bool) : State :=
  match s.regs.functionCode with
  | .noop => s.doCommandDone
  | .seek => if seeking then s.signal else s.stateSeek driveReady
  | .getStatus =>
    if s.regs.busregDA.getLsbD 1 then s.doCommandDone else s.operationIncomplete.doCommandDone
  | _ => s.signal

/-- The requests of the table are completed without success. -/
def cancelRequests (s : State) : State :=
  match s.worker with
  | .transfer p _ =>
    { s with worker := .transferred p, dmaRequest := s.dmaRequest.cancelled }
  | _ => s

/-- `reset()` -/
def reset (s : State) : State := { s.log .reset with regs := s.regs.reset }

end State

inductive Action
  /-- DATO to CS, with the state of the drive -/
  | writeCS (w : BitVec 16) (seeking driveReady : Bool)
  | writeBA (w : BitVec 16)
  | writeDA (w : BitVec 16)
  | writeMP (w : BitVec 16)
  | writeBAE (w : BitVec 16)
  | initAsserted
  | initNegated
  /-- the worker wakes up -/
  | wake (poweredOff : Bool)
  | dispatch
  /-- one round of the loop, up to the call of `DMA()`. `header` is the sector that passes by -/
  | enter (driveReady onTrack : Bool) (header : BitVec 16)
  | callDMA
  /-- the adapter completes the request after so many words -/
  | dmaComplete (ws : List BusWord)
  | afterDMA
  | store (writable differs : Bool)
  | incomplete

/-- Does the mutex let the other thread in? -/
def Worker.unlocked : Worker → Bool
  | .waiting | .signalled => true
  | _ => false

/-- The arguments of `DMA()` for a function. -/
def dmaCall (f : Function) (p : Piece) : Option DmaCall :=
  match f with
  | .readData | .readDataWithoutHeaderCheck =>
    some ⟨.dato, p.qunibusAddress, p.dmaWordcount, sectorWordcount⟩
  | .writeCheck | .writeData => some ⟨.dati, p.qunibusAddress, p.dmaWordcount, sectorWordcount⟩
  | _ => none

/-- `state_readwrite()` in `RL11_STATE_RW_DISK`, up to the call of `DMA()` -/
def enterDisk (s : State) (onTrack : Bool) (header : BitVec 16) : State :=
  if s.regs.getMPWordcount = 0 then s.fail
  else
    let p : Piece :=
      ⟨s.regs.selectedDriveUnitno, s.regs.getQunibusAddress, s.regs.getMPWordcount,
        s.regs.busregDA, header, none, none⟩
    if s.regs.functionCode = .readDataWithoutHeaderCheck then { s with worker := .prepared p }
    else if onTrack = false then
      { s with
        regs := { s.regs with errorHeaderNotFound := true }
        worker := .incomplete }
    else if header ≠ s.regs.busregDA then s -- wrong sector
    else { s with worker := .prepared p }

/-- `state_readwrite()` -/
def enterReadwrite (s : State) (driveReady onTrack : Bool) (header : BitVec 16) : State :=
  if s.regs.functionCode.isTransfer = false then s.fail
  else if driveReady = false then { s with worker := .incomplete }
  else if s.regs.state = .rwInit then
    if s.regs.getMPWordcount = 0 then
      { s with regs := s.regs.clearErrors }.doCommandDone
    else s.update (s.regs.clearErrors.changeState .rwDisk)
  else enterDisk s onTrack header

def enter (s : State) (driveReady onTrack : Bool) (header : BitVec 16) : State :=
  match s.regs.state with
  | .controllerReady => { s with worker := .waiting }
  | .controllerBusy => s -- neither mask
  | .seekInit => s.stateSeek driveReady
  | .rwInit | .rwDisk => enterReadwrite s driveReady onTrack header

/-- `DMA()`. Called during INIT it returns at once and leaves the result of the last call. -/
def callDMA (c : Config) (s : State) (p : Piece) : State :=
  match dmaCall s.regs.functionCode p with
  | none => { s with worker := .transferred p }
  | some d =>
    let called := s.log (.called d)
    let p := { p with call := some d }
    if ¬ d.Asserted c.space then called.fail
    else if s.lineINIT then { called with worker := .transferred p }
    else { called with worker := .transfer p d, dmaRequest := .scheduled }

def dmaComplete (s : State) (p : Piece) (d : DmaCall) (ws : List BusWord) : State :=
  let moved := if ws.length = d.wordcount then some ws else none
  { s with
    worker := .transferred { p with moved := moved }
    dmaRequest := .completed d ws.length }

/-- `DMA()` has returned: the registers are updated. -/
def afterDMA (s : State) (p : Piece) : State :=
  let called := p.call.isSome
  let addr := if called then s.dmaRequest.endAddr else p.qunibusAddress
  let timeout := if called then !s.dmaRequest.success else s.regs.errorDmaTimeout
  let returned :=
    if called then s.log (.returned s.dmaRequest.success p.moved.isSome) else s
  let t := returned.update
    { s.regs.updateQunibusAddress (addr + 2) with errorDmaTimeout := timeout }
  if timeout then { t with worker := .incomplete } else { t with worker := .store p }

/-- What the drive is given to write: the silo, cleared before the transfer. -/
def Piece.sectorWrite (p : Piece) : SectorWrite where
  unit := p.unit
  sector := p.sector.toNat
  words := filled sectorWordcount (p.moved.getD [])
  source := p.moved.map fun ws => (p.qunibusAddress, ws)

/-- what is left of the command after a sector -/
def Piece.remaining (p : Piece) : ℕ :=
  if p.cmdWordcount ≥ sectorWordcount then p.cmdWordcount - sectorWordcount else 0

/-- The sector is written to the drive, if it takes it. -/
def storeSector (s : State) (p : Piece) (writable : Bool) : State :=
  if s.regs.functionCode = .writeData ∧ writable = true then
    s.log (.stored s.command p.sectorWrite)
  else s

/-- DA and MP of the next sector, and the result of a comparison -/
def Piece.nextRegisters (p : Piece) (r : Registers) (differs : Bool) : Registers :=
  { r.setMPWordcount p.remaining with
    busregDA := p.diskAddress + 1
    errorWritecheck := if r.functionCode = .writeCheck then differs else r.errorWritecheck }

/-- the rest of the piece -/
def storePiece (s : State) (p : Piece) (writable differs : Bool) : State :=
  let t :=
    { (storeSector s p writable).update (p.nextRegisters s.regs differs) with
      worker := .looping }
  if p.remaining = 0 then t.doCommandDone else t.update (t.regs.changeState .rwDisk)

def step (c : Config) (s : State) : Action → Option State
  | .writeCS w seeking driveReady =>
    if s.regs.state ≠ .controllerReady then some s -- ignored
    else if s.worker.unlocked = false then none
    else
      let t := { s with regs := s.regs.writeCS w }
      if w.getLsbD 7 then some t else some (t.start.go seeking driveReady)
  | .writeBA w => some { s with regs := { s.regs with busregBA := w &&& 0xfffe } }
  | .writeDA w => some { s with regs := { s.regs with busregDA := w } }
  | .writeMP w => some { s with regs := { s.regs with busregMP := w } }
  | .writeBAE w =>
    if c.busregBAE = true then
      some { s with regs := { s.regs with qunibusAddressMsb := (w &&& 0x3f).toNat } }
    else none
  | .initAsserted =>
    if s.lineINIT = false then some { s.cancelRequests with lineINIT := true } else none
  | .initNegated =>
    if s.lineINIT = true then some { s.reset.cancelRequests with lineINIT := false } else none
  | .wake poweredOff =>
    if s.worker ≠ .signalled then none
    else if s.lineINIT then some { s with worker := .waiting }
    else
      let t := { s with regs := s.regs.clearErrors }
      some { t with worker := if poweredOff then .incomplete else .dispatching }
  | .dispatch =>
    if s.worker ≠ .dispatching then none
    else
      let t := { s with worker := .looping }
      match s.regs.functionCode with
      | .seek => some (t.update (t.regs.changeState .seekInit))
      | .readHeader => some t.doCommandDone
      | .noop | .getStatus => some t -- invalid function code
      | _ => some (t.update (t.regs.changeState .rwInit))
  | .enter driveReady onTrack header =>
    if s.worker = .looping then some (enter s driveReady onTrack header) else none
  | .callDMA =>
    match s.worker with
    | .prepared p => some (callDMA c s p)
    | _ => none
  | .dmaComplete ws =>
    match s.worker with
    | .transfer p d => if ws.length ≤ d.wordcount then some (dmaComplete s p d ws) else none
    | _ => none
  | .afterDMA =>
    match s.worker with
    | .transferred p => some (afterDMA s p)
    | _ => none
  | .store writable differs =>
    match s.worker with
    | .store p => some (storePiece s p writable differs)
    | _ => none
  | .incomplete =>
    if s.worker = .incomplete then some { s.operationIncomplete with worker := .looping }
    else none

def Registers.initial : Registers where
  qunibusAddressMsb := 0
  busregBA := 0
  busregDA := 0
  busregMP := 0
  functionCode := .noop
  interruptEnable := false
  selectedDriveUnitno := 0
  state := .controllerReady
  errorOperationIncomplete := false
  errorDmaTimeout := false
  errorWritecheck := false
  errorHeaderNotFound := false

def State.initial : State where
  regs := .initial
  lineINIT := false
  dmaRequest := ⟨false, 0⟩
  worker := .waiting
  command := ⟨0, 0, 0, 0, 0, false⟩
  history := []

end QUniBone.RL11
