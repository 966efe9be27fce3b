import QUniBone.Disk.Dma
import QUniBone.Lib.Span

/-!
# RK11 and RKV11

`rk11_c` as a step relation. The bus adapter's thread runs `on_after_register_access()` and
`reset_controller()`, the controller's thread runs `worker()`. A command is handed over in
`_new_command`; the worker then reads the disk address, the word count and the status bits from
the registers as it goes along.

A data transfer goes sector by sector through the phases `looping`, `prepared`, `transfer`,
`transferred`, `storing` and `advance`. RKDB, the drive status RKDS and the data that is read from
the disk are left out, and so are the interrupts at the end of a seek and those that answer a
write to RKCS at once.

* `DiskAddress`: RKDA, and the sector that it names.
* `Registers`, `State`, `Action`, `step`: the two threads, the bus adapter and INIT.
-/

namespace QUniBone.RK11

open Disk

inductive Function
  | controlReset
  | write
  | read
  | writeCheck
  | seek
  | readCheck
  | driveReset
  | writeLock
  deriving DecidableEq

/-- RKCS bits 1 to 3 -/
def Function.ofBits : ℕ → Function
  | 0 => .controlReset
  | 1 => .write
  | 2 => .read
  | 3 => .writeCheck
  | 4 => .seek
  | 5 => .readCheck
  | 6 => .driveReset
  | _ => .writeLock

/-- The functions with DMA. -/
def Function.isTransfer : Function → Bool
  | .write | .read | .writeCheck => true
  | _ => false

/-- The fields of RKDA. -/
structure DiskAddress where
  sector : ℕ
  surface : ℕ
  cyl : ℕ
  drive : ℕ
  deriving DecidableEq

namespace DiskAddress

def ofWord (w : BitVec 16) : DiskAddress where
  sector := (w &&& 0xf).toNat
  surface := (w &&& 0x10).toNat / 2 ^ 4
  cyl := (w &&& 0x1fe0).toNat / 2 ^ 5
  drive := (w &&& 0xe000).toNat / 2 ^ 13

/-- the number of the sector on its drive -/
def block (a : DiskAddress) : ℕ := (a.cyl * 2 + a.surface) * 12 + a.sector

/-- `increment_RKDA()` -/
def increment (a : DiskAddress) : DiskAddress :=
  if a.sector + 1 > 11 then
    if a.surface + 1 > 1 then { a with sector := 0, surface := 0, cyl := a.cyl + 1 }
    else { a with sector := 0, surface := a.surface + 1 }
  else { a with sector := a.sector + 1 }

/-- what `validate_seek()` asks of the address -/
def Valid (a : DiskAddress) : Prop := a.sector ≤ 11 ∧ a.cyl ≤ 202

instance decidableValid (a : DiskAddress) : Decidable a.Valid :=
  inferInstanceAs (Decidable (_ ∧ _))

end DiskAddress

structure Config where
  /-- `addr_space_byte_count` -/
  space : ℕ
  isRkv11 : Bool

/-- The error bits of RKER and RKCS that the controller sets. -/
structure Errors where
  wce : Bool
  nxs : Bool
  nxc : Bool
  nxd : Bool
  nxm : Bool
  pge : Bool
  ovr : Bool
  dre : Bool
  he : Bool
  err : Bool
  deriving DecidableEq

def Errors.none : Errors :=
  ⟨false, false, false, false, false, false, false, false, false, false⟩

structure Registers where
  go : Bool
  function : Function
  mex : ℕ
  ide : Bool
  rdy : Bool
  sse : Bool
  exb : Bool
  fmt : Bool
  iba : Bool
  scp : Bool
  errors : Errors
  rkwc : BitVec 16
  rkba : BitVec 16
  rkda : DiskAddress

namespace Registers

/-- `reset_controller()` -/
def initial : Registers where
  go := false
  function := .controlReset
  mex := 0
  ide := false
  rdy := true
  sse := false
  exb := false
  fmt := false
  iba := false
  scp := false
  errors := .none
  rkwc := 0
  rkba := 0
  rkda := ⟨0, 0, 0, 0⟩

/-- The fields of RKCS. -/
def writeRKCS (r : Registers) (w : BitVec 16) : Registers :=
  { r with
    go := w.getLsbD 0
    function := .ofBits (w >>> 1 &&& 7).toNat
    mex := (w >>> 4 &&& 3).toNat
    ide := w.getLsbD 6
    sse := w.getLsbD 8
    exb := w.getLsbD 9
    fmt := w.getLsbD 10
    iba := w.getLsbD 11 }

/-- `-(int16_t)RKWC` -/
def count (r : Registers) : ℤ := (-r.rkwc.toInt).bmod (2 ^ 16)

end Registers

/-- `_new_command`, with the command as it was started. -/
structure WorkerCommand where
  command : Command
  address : ℕ
  function : Function
  format : Bool
  iba : Bool
  deriving DecidableEq

/-- The local variables of the worker's loop. -/
structure Cursor where
  cmd : WorkerCommand
  currentAddress : ℕ
  currentCount : ℤ
  deriving DecidableEq

/-- words of a sector and of `sectorBuffer` -/
def sectorWords : ℕ := 256

/-- `request.count` -/
def Cursor.requestCount (p : Cursor) : ℕ :=
  if p.cmd.function = .read ∧ p.cmd.format = true then 1 else min sectorWords p.currentCount.toNat

inductive Worker
  | idle
  | execute (cmd : WorkerCommand)
  /-- at `while (current_count > 0 && !abort)` -/
  | looping (p : Cursor)
  /-- the same loop of Read Check -/
  | checking (p : Cursor)
  | prepared (p : Cursor)
  /-- `DMA()` waits for its request -/
  | transfer (p : Cursor) (d : DmaCall)
  /-- `DMA()` has returned. `moved`: the words transferred, if all of them -/
  | transferred (p : Cursor) (moved : Option (List BusWord))
  /-- in `write_sector()` -/
  | storing (p : Cursor) (w : SectorWrite)
  /-- the registers are next -/
  | advance (p : Cursor) (abort : Bool)
  | finish (cmd : WorkerCommand) (doInterrupt : Bool)
  /-- an assertion has failed -/
  | dead
  deriving DecidableEq

structure State where
  regs : Registers
  newCommand : Option WorkerCommand
  lineINIT : Bool
  dmaRequest : DmaRequest
  worker : Worker
  /-- the number of the last command started -/
  lastId : ℕ
  history : List Event

namespace State

def log (s : State) (e : Event) : State := { s with history := e :: s.history }

def fail (s : State) : State := { s.log .failed with worker := .dead }

/-- The worker changes registers. -/
def update (s : State) (c : Command) (r : Registers) : State :=
  { s.log (.updated c) with regs := r }

/-- `reset_controller()` -/
def resetController (s : State) : State := { s.log .reset with regs := .initial }

/-- The requests of the table are completed without success. -/
def cancelRequests (s : State) : State :=
  match s.worker with
  | .transfer p _ =>
    { s with worker := .transferred p none, dmaRequest := s.dmaRequest.cancelled }
  | _ => s

/-- The command is handed over to the worker. -/
def start (c : Config) (s : State) : State :=
  let address := if c.isRkv11 then s.regs.rkba.toNat else s.regs.mex * 2 ^ 16 + s.regs.rkba.toNat
  let command : Command :=
    ⟨s.lastId + 1, s.regs.rkda.drive, s.regs.rkda.block, address, s.regs.count.toNat,
      s.regs.iba⟩
  let cmd : WorkerCommand := ⟨command, address, s.regs.function, s.regs.fmt, s.regs.iba⟩
  { s.log (.started command) with
    regs := { s.regs with rdy := false, scp := false }
    newCommand := some cmd
    lastId := s.lastId + 1 }

/-- An error in place of the command. `assert(_rdy)` follows. -/
def refuse (s : State) (e : Errors) : State :=
  let t :=
    { s with regs := { s.regs with errors := e, scp := false, go := false } }
  if s.regs.rdy = true then t else t.fail

/-- GO -/
def go (c : Config) (s : State) (driveReady : Bool) : State :=
  let e := { s.regs.errors with he := true, err := true }
  if s.regs.fmt = true ∧ s.regs.function ≠ .read ∧ s.regs.function ≠ .write ∧
      s.regs.function ≠ .controlReset then
    { s with regs := { s.regs with errors := { e with pge := true }, go := false } }
  else
    match s.regs.function with
    | .controlReset => s.resetController
    | .writeLock => { s with regs := { s.regs with scp := false } }
    | .driveReset => if driveReady then s.start c else s.refuse { e with nxd := true }
    | _ => if driveReady then s.start c else s.refuse { e with dre := true }

end State

inductive Action
  /-- DATO to RKCS, with the state of the drive -/
  | writeRKCS (w : BitVec 16) (driveReady : Bool)
  | writeRKWC (w : BitVec 16)
  | writeRKBA (w : BitVec 16)
  | writeRKDA (w : BitVec 16)
  | initAsserted
  | initNegated
  /-- the worker takes the new command -/
  | accept
  | execute (drivePresent : Bool)
  /-- one round of the loop, up to the call of `DMA()` -/
  | enter (drivePresent : Bool)
  | callDMA
  /-- the adapter completes the request after so many words -/
  | dmaComplete (ws : List BusWord)
  | afterDMA (differs : Bool)
  /-- the end of `write_sector()` -/
  | store
  | advance
  | finish

/-- The arguments of `DMA()` in `dma_transfer()`. With IBA one word is transferred, of a write
to memory the last one of the buffer. -/
def Cursor.dmaCall (p : Cursor) : DmaCall :=
  let cycle := if p.cmd.function = .read then .dato else .dati
  if p.cmd.iba then
    let offset := if p.cmd.function = .read then p.requestCount - 1 else 0
    ⟨cycle, p.currentAddress, 1, sectorWords - offset⟩
  else ⟨cycle, p.currentAddress, p.requestCount, sectorWords⟩

/-- `validate_seek()`: the errors that it sets -/
def validateSeek (r : Registers) (drivePresent : Bool) : Errors :=
  { r.errors with
    nxs := r.errors.nxs || decide (r.rkda.sector > 11)
    nxc := r.errors.nxc || decide (r.rkda.cyl > 202)
    nxd := r.errors.nxd || !drivePresent
    he := true
    err := true }

/-- one round of `while (current_count > 0 && !abort)` -/
def enter (s : State) (p : Cursor) (drivePresent : Bool) : State :=
  if p.currentCount ≤ 0 ∨ s.newCommand.isSome = true then
    { s with worker := .finish p.cmd true }
  else if s.regs.rkda.Valid ∧ drivePresent = true then { s with worker := .prepared p }
  else
    let e := validateSeek s.regs drivePresent
    let ovr := s.regs.errors.ovr || decide (s.regs.rkda.cyl > 202)
    { s.update p.cmd.command { s.regs with errors := { e with ovr := ovr } } with
      worker := .finish p.cmd true }

/-- one round of the loop of Read Check -/
def enterCheck (s : State) (p : Cursor) (drivePresent : Bool) : State :=
  if p.currentCount ≤ 0 then { s with worker := .finish p.cmd true }
  else if s.regs.rkda.Valid ∧ drivePresent = true then
    let count := (p.currentCount - sectorWords).bmod (2 ^ 16)
    let address := p.currentAddress + 2 * sectorWords
    let r := { s.regs with rkda := s.regs.rkda.increment }
    let regs :=
      if p.cmd.iba then r
      else { r with rkwc := BitVec.ofInt 16 (-count), mex := address / 2 ^ 16 % 4 }
    let currentAddress := if p.cmd.iba then p.currentAddress else address
    { s.update p.cmd.command regs with worker := .checking ⟨p.cmd, currentAddress, count⟩ }
  else
    { s.update p.cmd.command { s.regs with errors := validateSeek s.regs drivePresent } with
      worker := .finish p.cmd true }

/-- `Worker_Execute` -/
def execute (s : State) (cmd : WorkerCommand) (drivePresent : Bool) : State :=
  let p : Cursor := ⟨cmd, cmd.address, s.regs.count⟩
  match cmd.function with
  | .write | .read | .writeCheck => { s with worker := .looping p }
  | .readCheck => { s with worker := .checking p }
  | .seek =>
    if s.regs.rkda.Valid ∧ drivePresent = true then { s with worker := .finish cmd true }
    else
      { s.update cmd.command { s.regs with errors := validateSeek s.regs drivePresent } with
        worker := .finish cmd false }
  | .driveReset => { s with worker := .finish cmd drivePresent }
  | _ => { s with worker := .finish cmd true }

/-- `DMA()`. Called during INIT it returns at once and leaves the result of the last call. -/
def callDMA (c : Config) (s : State) (p : Cursor) : State :=
  let d := p.dmaCall
  let called := s.log (.called d)
  if ¬ d.Asserted c.space then called.fail
  else if s.lineINIT then { called with worker := .transferred p none }
  else { called with worker := .transfer p d, dmaRequest := .scheduled }

def dmaComplete (s : State) (p : Cursor) (d : DmaCall) (ws : List BusWord) : State :=
  { s with
    worker := .transferred p (if ws.length = d.wordcount then some ws else none)
    dmaRequest := .completed d ws.length }

/-- The sector buffer after the transfer. With IBA the one word fills it. -/
def Cursor.buffer (p : Cursor) (moved : Option (List BusWord)) : List BusWord :=
  let ws := moved.getD []
  if p.cmd.iba then filled sectorWords (List.replicate p.requestCount (ws.headD 0))
  else filled sectorWords ws

/-- The completion status: errors, the write to the disk and the comparison. -/
def afterDMA (s : State) (p : Cursor) (moved : Option (List BusWord)) (differs : Bool) : State :=
  let t := s.log (.returned s.dmaRequest.success moved.isSome)
  if s.dmaRequest.success = false then
    let e := { s.regs.errors with nxm := true, he := true, err := true }
    { t.update p.cmd.command { s.regs with errors := e } with worker := .advance p true }
  else if p.cmd.function = .write then
    let w : SectorWrite :=
      ⟨s.regs.rkda.drive, s.regs.rkda.block, p.buffer moved,
        moved.map fun ws => (p.currentAddress, ws)⟩
    { t with worker := .storing p w }
  else if p.cmd.function = .writeCheck then
    let e := { s.regs.errors with
      wce := s.regs.errors.wce || differs, err := s.regs.errors.err || differs }
    { t.update p.cmd.command { s.regs with errors := e } with
      worker := .advance p (e.wce && s.regs.sse) }
  else { t with worker := .advance p false }

/-- The registers move to the next sector, also after an error. -/
def advance (s : State) (p : Cursor) (abort : Bool) : State :=
  let count := p.currentCount - p.requestCount
  let address := p.currentAddress + 2 * p.requestCount
  let r := { s.regs with
    rkwc := BitVec.ofInt 16 (-count)
    rkda := s.regs.rkda.increment }
  let regs :=
    if p.cmd.iba then r
    else { r with rkba := BitVec.ofNat 16 address, mex := address / 2 ^ 16 % 4 }
  let currentAddress := if p.cmd.iba then p.currentAddress else address
  let t := s.update p.cmd.command regs
  if abort then { t with worker := .finish p.cmd true }
  else { t with worker := .looping ⟨p.cmd, currentAddress, count⟩ }

/-- `Worker_Finish`. `INTR()` does nothing during INIT. -/
def finish (s : State) (cmd : WorkerCommand) (doInterrupt : Bool) : State :=
  let t := { s.update cmd.command { s.regs with rdy := true } with worker := .idle }
  if doInterrupt = true ∧ s.regs.ide = true ∧ s.lineINIT = false then
    t.log (.raised cmd.command)
  else t

def step (c : Config) (s : State) : Action → Option State
  | .writeRKCS w driveReady =>
    let t := { s with regs := s.regs.writeRKCS w }
    if w.getLsbD 0 then some (t.go c driveReady) else some t
  | .writeRKWC w => some { s with regs := { s.regs with rkwc := w } }
  | .writeRKBA w => some { s with regs := { s.regs with rkba := w } }
  | .writeRKDA w =>
    if s.regs.rdy then some { s with regs := { s.regs with rkda := .ofWord w } } else some s
  | .initAsserted =>
    if s.lineINIT = false then
      some { s.resetController.cancelRequests with lineINIT := true }
    else none
  | .initNegated =>
    if s.lineINIT = true then some { s.cancelRequests with lineINIT := false } else none
  | .accept =>
    match s.worker, s.newCommand with
    | .idle, some cmd =>
      some { s.update cmd.command { s.regs with go := false } with
        newCommand := none
        worker := .execute cmd }
    | _, _ => none
  | .execute drivePresent =>
    match s.worker with
    | .execute cmd => some (execute s cmd drivePresent)
    | _ => none
  | .enter drivePresent =>
    match s.worker with
    | .looping p => some (enter s p drivePresent)
    | .checking p => some (enterCheck s p drivePresent)
    | _ => none
  | .callDMA =>
    match s.worker with
    | .prepared p => some (callDMA c s p)
    | _ => none
  | .dmaComplete ws =>
    match s.worker with
    | .transfer p d => if ws.length ≤ d.wordcount then some (dmaComplete s p d ws) else none
    | _ => none
  | .afterDMA differs =>
    match s.worker with
    | .transferred p moved => some (afterDMA s p moved differs)
    | _ => none
  | .store =>
    match s.worker with
    | .storing p w => some { s.log (.stored p.cmd.command w) with worker := .advance p false }
    | _ => none
  | .advance =>
    match s.worker with
    | .advance p abort => some (advance s p abort)
    | _ => none
  | .finish =>
    match s.worker with
    | .finish cmd doInterrupt => some (finish s cmd doInterrupt)
    | _ => none

def State.initial : State where
  regs := .initial
  newCommand := none
  lineINIT := false
  dmaRequest := ⟨false, 0⟩
  worker := .idle
  lastId := 0
  history := []

end QUniBone.RK11
