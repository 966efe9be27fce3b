import QUniBone.Pru.Emulation

/-!
# The PRU of the UniBone: its state

The variables of `pru1_main_unibus.c` and of the state machines it runs, and the part of the
mailbox they use. A state machine that is stopped is `none`, one that runs is at one of its
states, which stand for the function pointers of the source.

* `Lines`: what the reads of the bus latches return during one step.
* `Pru`: the state.
-/

namespace QUniBone.PruU

/-- The results of `buslatches_getbyte` in one step: register, and which read of it. -/
abbrev Lines := ℕ → ℕ → Byte

/-! ## State machines -/

/-- `statemachine_arbitration_t` -/
structure SmArb where
  deviceRequestMask : Byte
  deviceRequestSignalledMask : Byte
  deviceForwardedGrantMask : Byte
  grantBbsySsynWaitGrantMask : Byte
  cpuRequest : Bool
  arbitratorGrantMask : Byte

/-- The arbitration workers `sm_device_arb_worker` can point to. -/
inductive ArbWorker
  | none
  | device

/-- `sm_data_slave_*` -/
inductive SlaveState
  | start
  | state10
  | state20
  deriving DecidableEq

/-- `sm_dma_*` -/
inductive DmaState
  | start
  | state1
  | state11
  | state21
  | state99
  deriving DecidableEq

/-- `sm_intr_master_*` -/
inductive IntrMasterState
  | start
  | state1
  | state2
  deriving DecidableEq

/-- `sm_data_master_state`, when it is not `NULL`. -/
inductive Master
  | dma (state : DmaState)
  | intr (state : IntrMasterState)
  deriving DecidableEq

/-- `sm_intr_slave_*` -/
inductive IntrSlaveState
  | start
  | state1

/-- `statemachine_dma_t`. The data pointer is an index into `mailbox.dma.words`. -/
structure SmDma where
  stateTimeout : Bool
  dataptr : ℕ
  curWordsleft : Word

/-- `statemachine_intr_master_t` -/
structure SmIntrMaster where
  vector : Word
  levelIndex : ℕ

/-! ## Mailbox -/

/-- `ARM2PRU_*`, those that the UNIBUS main loop knows beside the bus tests. -/
inductive Arm2Pru
  | none
  | nop
  | arbModeNone
  | arbModeClient
  | dma
  | intr
  | intrCancel
  | arbGrantIntrRequests
  | initalizationsignalSet
  | cpuEnable
  | addressOverlay
  | buslatchSet
  | buslatchGet
  deriving DecidableEq

/-- `mailbox_dma_t` -/
structure MailboxDma where
  curStatus : Byte
  buscycle : Byte
  wordcount : Word
  cpuAccess : Bool
  curAddr : UInt
  startaddr : UInt
  words : ℕ → Word

/-- `DMA_STATE_READY` -/
def dmaStateReady : Byte := 0

/-- `DMA_STATE_RUNNING` -/
def dmaStateRunning : Byte := 2

/-- `DMA_STATE_TIMEOUTSTOP` -/
def dmaStateTimeoutstop : Byte := 3

/-- `DMA_STATE_INITSTOP` -/
def dmaStateInitstop : Byte := 4

/-- `mailbox_intr_t` -/
structure MailboxIntr where
  vector : ℕ → Word
  priorityArbitrationBit : Byte
  levelIndex : Byte
  iopageRegisterValue : Word
  iopageRegisterHandle : Handle

/-- `mailbox_events_t`. The event of a device register is kept with the registers. -/
structure Events where
  dma : Event
  intrMaster : ℕ → Event
  intrSlave : Event
  /-- `intr_slave.vector` -/
  intrSlaveVector : Word
  init : Event
  power : Event
  powerSignalsPrev : Byte
  powerSignalsCur : Byte
  initSignalCur : Byte

/-- `mailbox_arbitrator_t` -/
structure MailboxArbitrator where
  ifsPriorityLevel : Byte
  ifsIntrArbitrationPending : Bool

/-- `mailbox_buslatch_t`: register, bits to change, value. -/
structure MailboxBuslatch where
  addr : UInt
  bitmask : UInt
  val : UInt

/-- `mailbox_initializationsignal_t` -/
structure MailboxInitializationsignal where
  id : Word
  val : Word

/-- `mailbox_t` -/
structure Mailbox where
  arm2pruReq : Arm2Pru
  arbitrator : MailboxArbitrator
  events : Events
  intr : MailboxIntr
  dma : MailboxDma
  addressOverlay : UInt
  buslatch : MailboxBuslatch
  initializationsignal : MailboxInitializationsignal
  param : UInt

/-! ## The PRU -/

/-- Where the main loop stands. -/
inductive Phase
  /-- at the head of a round, or between two calls of the data slave -/
  | slave
  /-- after the data slave -/
  | arbitrate
  /-- before the interrupt slave and the ARM command -/
  | command
  deriving DecidableEq

/-- All of it. -/
structure Pru where
  phase : Phase
  arb : SmArb
  arbWorker : ArbWorker
  slave : Option SlaveState
  master : Option Master
  intrSlave : Option IntrSlaveState
  dma : SmDma
  intrMaster : SmIntrMaster
  emulateCpu : Bool
  addressOverlay : UInt
  timeouts : Timeouts
  /-- `buslatches.cur_reg_val`: what this station drives onto the bus. -/
  latch : ℕ → Byte
  emulation : Emulation
  mailbox : Mailbox

namespace Pru

/-- `buslatches_setbits` -/
def setbits (s : Pru) (reg : ℕ) (mask val : Byte) : Pru :=
  { s with latch := Function.update s.latch reg (QUniBone.setbits (s.latch reg) mask val) }

/-- `buslatches_setbyte` -/
def setbyte (s : Pru) (reg : ℕ) (val : Byte) : Pru :=
  { s with latch := Function.update s.latch reg val }

/-- The grants this station puts on GRANT OUT. The latch drives inverted lines. -/
def grantOut (s : Pru) : Byte := ~~~(s.latch 0) &&& PriorityArbitration.bitMask

/-- Whether this station asserts SACK. -/
def sack (s : Pru) : Bool := (s.latch 1).getLsbD 5

/-- `EVENT_IS_ACKED(mailbox, deviceregister)` -/
def registerEventAcked (s : Pru) : Bool := s.emulation.deviceregister.counters.isAcked

def modifyEvents (s : Pru) (f : Events → Events) : Pru :=
  { s with mailbox := { s.mailbox with events := f s.mailbox.events } }

def modifyMailboxDma (s : Pru) (f : MailboxDma → MailboxDma) : Pru :=
  { s with mailbox := { s.mailbox with dma := f s.mailbox.dma } }

/-- After `buslatches_reset`, with an idle mailbox and nothing registered. -/
def powerUp : Pru where
  phase := .slave
  arb := ⟨0, 0, 0, 0, false, 0⟩
  arbWorker := .device
  slave := none
  master := none
  intrSlave := none
  dma := ⟨false, 0, 0⟩
  intrMaster := ⟨0, 0⟩
  emulateCpu := false
  addressOverlay := 0
  timeouts := ⟨0, 0, fun _ => 0⟩
  latch reg := if reg = 0 then 0x1f else 0
  emulation := {
    pages := ⟨0, 0, 0o760000, fun _ => 0, fun _ => default⟩
    ddrmem := fun _ => 0
    deviceregister := default }
  mailbox := {
    arm2pruReq := .none
    arbitrator := ⟨0, false⟩
    events := ⟨default, fun _ => default, default, 0, default, default, 0, 0, 0⟩
    intr := ⟨fun _ => 0, 0, 0, 0, 0⟩
    dma := ⟨0, 0, 0, false, 0, 0, fun _ => 0⟩
    addressOverlay := 0
    buslatch := ⟨0, 0, 0⟩
    initializationsignal := ⟨0, 0⟩
    param := 0 }

end Pru

end QUniBone.PruU
