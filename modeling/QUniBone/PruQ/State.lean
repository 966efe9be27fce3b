import QUniBone.PruU.State

/-!
# The PRU of the QBone: its state

The variables of `pru1_main_qbus.c` and of the state machines it runs. A CPU is not emulated on
the QBUS yet, so nothing is here for the arbitration master.

* `BusLatches`: what the PRU has written to the CPLD registers.
* `Pru`: the state.
-/

namespace QUniBone.PruQ

open PruU (Lines MailboxBuslatch MailboxDma MailboxInitializationsignal
  MailboxIntr Events)

/-! ## State machines -/

/-- `sm_arbitration_states_enum` -/
inductive ArbitrationState
  | grantCheck
  | dmaGrantRplySyncWait
  | intrVector
  | intrComplete
  | noop
  deriving DecidableEq

/-- `statemachine_arbitration_t` -/
structure SmArb where
  state : ArbitrationState
  deviceRequestMask : Byte
  deviceRequestSignalledMask : Byte
  deviceForwardedGrantMask : Byte
  deviceGrantMask : Byte
  intrLevelIndex : ℕ
  cpuRequest : Bool
  arbitratorGrantMask : Byte
  cpuBusInhibitDmrMask : Byte

/-- `states_data_slave_enum` -/
inductive SlaveState
  | stop
  | start
  | dindoutStart
  | dinSingleComplete
  | doutSingleComplete
  | dinBlockComplete
  | doutBlockComplete
  deriving DecidableEq

/-- `statemachine_data_slave_t` -/
structure SmDataSlave where
  state : SlaveState
  addr : UInt

/-- `sm_dma_*` -/
inductive DmaState
  | start
  | addr
  | dinStart
  | dinComplete
  | doutStart
  | doutComplete
  | state99
  deriving DecidableEq

/-- `statemachine_dma_t`. The data pointer is an index into `mailbox.dma.words`. -/
structure SmDma where
  stateTimeout : Bool
  dataptr : ℕ
  wordsLeft : Word
  blockEndAddr : UInt
  blockDataStateFunc : Option DmaState
  firstDataPortion : Bool

/-- `sm_initialization_states_enum`, those that are reached. -/
inductive InitializationState
  | idle
  | initAsserted

/-! ## Timeouts -/

/-- `timeout_controlblock_t` -/
structure TimeoutControlblock where
  targetCycles : UInt
  rollOver : Bool

/-- The timers, indices of `timeout_controlblock`. -/
inductive TimeoutId
  | dma
  | qbusInit
  deriving DecidableEq

/-- `pru1_timeouts.c` in its QBUS version. The cycle counter stops at its end and is restarted
when a timer is looked at. -/
structure Timeouts where
  cycle : UInt
  controlblock : TimeoutId → TimeoutControlblock

namespace Timeouts

/-- The restart of the counter in `TIMEOUT_SET` and `TIMEOUT_REACHED`. -/
def restart (t : Timeouts) : Timeouts := if t.cycle + 1 = 0 then { t with cycle := 0 } else t

/-- `TIMEOUT_SET` -/
def set (t : Timeouts) (id : TimeoutId) (delayTicks : UInt) : Timeouts :=
  let cycles := t.cycle + 1
  let target := cycles + delayTicks
  { t.restart with
    controlblock := fun i =>
      if i = id then ⟨target, decide (target < cycles)⟩ else t.controlblock i }

/-- The result of `TIMEOUT_REACHED`. -/
def reached (t : Timeouts) (id : TimeoutId) : Bool :=
  let cycles := t.cycle + 1
  if (t.controlblock id).rollOver ∧ cycles > 0x80000000 then false
  else decide (cycles ≥ (t.controlblock id).targetCycles)

end Timeouts

/-! ## Bus latches -/

/-- The CPLD registers on the write side. BS7 is bit 6 of register 2 and bit 5 of register 4. -/
structure BusLatches where
  /-- `buslatches.cur_reg_val`: only `buslatches_setbits` keeps it -/
  curRegVal : ℕ → Byte
  /-- what is on the lines -/
  driven : ℕ → Byte

namespace BusLatches

/-- A line that has two places among the registers. -/
def copyBit (old : Byte) (i : ℕ) (val : Bool) : Byte :=
  QUniBone.setbits old (bit i) (if val then bit i else 0)

/-- A write to a register. Register 3 takes commands, of which one negates DAL and BS7. -/
def write (driven : ℕ → Byte) (reg : ℕ) (val : Byte) : ℕ → Byte :=
  if reg = 2 then
    Function.update (Function.update driven 2 (val &&& 0x7f)) 4
      (copyBit (driven 4) 5 (val.getLsbD 6))
  else if reg = 3 then
    if val.getLsbD 1 then
      fun r => if r ≤ 2 then 0 else if r = 4 then copyBit (driven 4) 5 false else driven r
    else driven
  else if reg = 4 then
    Function.update (Function.update driven 4 val) 2 (copyBit (driven 2) 6 (val.getLsbD 5))
  else Function.update driven reg val

/-- `buslatches_setbyte` -/
def setbyte (b : BusLatches) (reg : ℕ) (val : Byte) : BusLatches :=
  { b with driven := write b.driven reg val }

/-- `buslatches_setbits` -/
def setbits (b : BusLatches) (reg : ℕ) (mask val : Byte) : BusLatches :=
  let merged := QUniBone.setbits (b.curRegVal reg) mask val
  { curRegVal := Function.update b.curRegVal reg merged
    driven := write b.driven reg merged }

/-- `buslatches_reset`: POK and DCOK are asserted. -/
def reset : BusLatches where
  curRegVal := fun r => if r = 5 then 0x18 else 0
  driven := fun r => if r = 5 then 0x18 else 0

end BusLatches

/-! ## Mailbox -/

/-- `ARM2PRU_*`, those that the QBUS main loop knows beside `ARM2PRU_HALT`. -/
inductive Arm2Pru
  | none
  | nop
  | arbModeNone
  | arbModeClient
  | dma
  | intr
  | intrCancel
  | arbGrantIntrRequests
  | initalizationsignalSet
  | buslatchSet
  | buslatchGet
  | cpuBusAccess

/-- `mailbox_t` -/
structure Mailbox where
  arm2pruReq : Arm2Pru
  events : Events
  intr : MailboxIntr
  dma : MailboxDma
  buslatch : MailboxBuslatch
  initializationsignal : MailboxInitializationsignal
  param : UInt

/-! ## The PRU -/

/-- Where the main loop stands. -/
inductive Phase
  /-- in the data slave, or in a running master -/
  | slave
  /-- after the data slave -/
  | arbitrate
  /-- before the ARM command -/
  | command
  deriving DecidableEq

/-- All of it. -/
structure Pru where
  phase : Phase
  arb : SmArb
  slave : SmDataSlave
  /-- `sm_data_master_state`, when it is not `NULL` -/
  master : Option DmaState
  dma : SmDma
  initialization : InitializationState
  timeouts : Timeouts
  latches : BusLatches
  emulation : Emulation
  mailbox : Mailbox

namespace Pru

/-- `buslatches_setbits` -/
def setbits (s : Pru) (reg : ℕ) (mask val : Byte) : Pru :=
  { s with latches := s.latches.setbits reg mask val }

/-- `buslatches_setbyte` -/
def setbyte (s : Pru) (reg : ℕ) (val : Byte) : Pru :=
  { s with latches := s.latches.setbyte reg val }

/-- Whether this station asserts SACK. -/
def sack (s : Pru) : Bool := (s.latches.driven 6).getLsbD 7

/-- Whether this station asserts RPLY. -/
def rply (s : Pru) : Bool := (s.latches.driven 4).getLsbD 3

/-- Bits 15:0 of what this station puts onto DAL. -/
def dal (s : Pru) : Word :=
  (s.latches.driven 0).setWidth 16 ||| ((s.latches.driven 1).setWidth 16 <<< 8)

/-- `EVENT_IS_ACKED(mailbox, deviceregister)` -/
def registerEventAcked (s : Pru) : Bool := s.emulation.deviceregister.counters.isAcked

def modifyArb (s : Pru) (f : SmArb → SmArb) : Pru := { s with arb := f s.arb }

def modifyEvents (s : Pru) (f : Events → Events) : Pru :=
  { s with mailbox := { s.mailbox with events := f s.mailbox.events } }

def modifyMailboxDma (s : Pru) (f : MailboxDma → MailboxDma) : Pru :=
  { s with mailbox := { s.mailbox with dma := f s.mailbox.dma } }

def withEmulation (s : Pru) (e : Emulation) : Pru := { s with emulation := e }

/-- After `buslatches_reset`, with an idle mailbox and nothing registered. -/
def powerUp : Pru where
  phase := .slave
  arb := ⟨.grantCheck, 0, 0, 0, 0, 0, false, 0, 0⟩
  slave := ⟨.stop, 0⟩
  master := none
  dma := ⟨false, 0, 0, 0, none, false⟩
  initialization := .idle
  timeouts := ⟨0, fun _ => ⟨0, false⟩⟩
  latches := BusLatches.reset
  emulation := {
    pages := ⟨0, 0, 0, fun _ => 0, fun _ => default⟩
    ddrmem := fun _ => 0
    deviceregister := default }
  mailbox := {
    arm2pruReq := .none
    events := ⟨default, fun _ => default, default, 0, default, default, 0, 0, 0⟩
    intr := ⟨fun _ => 0, 0, 0, 0, 0⟩
    dma := ⟨0, 0, 0, false, 0, 0, fun _ => 0⟩
    buslatch := ⟨0, 0, 0⟩
    initializationsignal := ⟨0, 0⟩
    param := 0 }

end Pru

end QUniBone.PruQ
