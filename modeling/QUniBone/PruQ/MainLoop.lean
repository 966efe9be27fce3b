import QUniBone.PruQ.Dma
import QUniBone.PruQ.Slave
import QUniBone.PruU.Arbitration

/-!
# The main loop of the QBone's PRU

`pru1_main_qbus.c`, with the arbitration and initialization state machines it calls in a round.
Grants go through CPLD registers that look like the grant lines of a UNIBUS, but an interrupt
acknowledge is a bus cycle, which the arbitration answers itself.

* `smInitializationFunc`: INIT and power signals.
* `smArbWorkerDevice`: requests and their grants.
* `mainStep`: one step of the loop.
-/

namespace QUniBone.PruQ.Pru

open PriorityArbitration
open PruU (Lines)

/-! ## INIT and power -/

/-- `INITIALIZATIONSIGNAL_POK | INITIALIZATIONSIGNAL_DCOK` -/
def initializationsignalPower : Byte := bit 3 ||| bit 4

/-- The power event of `sm_initialization_func`. -/
def doEventPower (s : Pru) (cur : Byte) : Pru :=
  let prev := s.mailbox.events.powerSignalsCur
  if (prev ^^^ cur) &&& initializationsignalPower ≠ 0 then
    s.modifyEvents fun events => { events with
      powerSignalsPrev := prev
      powerSignalsCur := cur &&& initializationsignalPower
      power := events.power.signal }
  else s

/-- The states of `sm_initialization_func`. Only the start of INIT is signalled. -/
def doEventInit (s : Pru) (init : Bool) : Pru :=
  match s.initialization with
  | .idle =>
    if init then
      let s := s.withEmulation s.emulation.resetValues
      let s := s.modifyEvents fun events => { events with
        initSignalCur := 1
        init := events.init.signal }
      { s with initialization := .initAsserted }
    else s
  | .initAsserted =>
    let acked := s.mailbox.events.init.isAcked
    let ready := acked || s.timeouts.reached .qbusInit
    let s := if acked then s else { s with timeouts := s.timeouts.restart }
    if ready && !init then { s with initialization := .idle } else s

/-- `sm_initialization_func`. INIT drops the requests. -/
def smInitializationFunc (l : Lines) (s : Pru) : Pru :=
  let cur := l 5 0 &&& 0x1b
  let init := cur.getLsbD 0
  let s := if init then s.modifyArb fun arb => { arb with deviceRequestMask := 0 } else s
  (s.doEventPower cur).doEventInit init

/-! ## Arbitration -/

/-- The lines for a mask of requests: a level asserts lower levels, too. -/
def busLines (requests : Byte) : Byte :=
  if requests &&& 0x0e ≠ 0 then
    requests ||| (if requests.getLsbD 3 then bit 0 ||| bit 2 else bit 0)
  else requests

/-- The index of a grant among INTR4, …, INTR7, DMR. -/
def bit2idx (grant : Byte) : ℕ := if grant.getLsbD 4 then 4 else PruU.lmbd grant

/-- `state_arbitration_grant_check` -/
def grantCheck (s : Pru) (granted : Byte) : Byte × Pru :=
  let requests := s.arb.deviceRequestMask
  let s := s.setbits 6 bitMask
    (busLines (if s.arb.cpuBusInhibitDmrMask ≠ 0 then requests ||| bitNp else requests))
  let grant := granted &&& requests &&& ~~~s.arb.deviceForwardedGrantMask
  let state :=
    if grant &&& intrMask ≠ 0 then .intrVector
    else if grant &&& bitNp ≠ 0 then .dmaGrantRplySyncWait
    else s.arb.state
  (0, s.modifyArb fun arb => { arb with
    deviceRequestSignalledMask := requests
    deviceGrantMask := grant
    state := state })

/-- `state_arbitration_dma_grant_rply_sync_wait`: SACK, and DMR away, when the bus is free. -/
def dmaGrantRplySyncWait (l : Lines) (s : Pru) : Byte × Pru :=
  if (l 4 0).getLsbD 0 ∨ (l 4 0).getLsbD 3 then (0, s)
  else
    let s := s.setbits 6 (bitNp ||| bit 7) (bit 7)
    (bitNp, s.modifyArb fun arb => { arb with
      deviceRequestMask := arb.deviceRequestMask &&& ~~~bitNp
      state := .grantCheck })

/-- `state_arbitration_intr_vector`: the vector is the answer to DIN. -/
def intrVector (l : Lines) (s : Pru) : Byte × Pru :=
  if (l 4 0).getLsbD 1 = false then (0, s)
  else
    let grant := s.arb.deviceGrantMask
    let idx := bit2idx grant
    let vector := s.mailbox.intr.vector idx
    let s := (s.setbits 6 grant 0).setbits 4 (bit 3) (bit 3)
    let s := (s.setbyte 0 (PruU.lowByte vector)).setbyte 1 (PruU.highByte vector)
    (0, s.modifyArb fun arb => { arb with
      deviceRequestMask := arb.deviceRequestMask &&& ~~~grant
      intrLevelIndex := idx
      state := .intrComplete })

/-- `state_arbitration_intr_complete`: the end of the acknowledge. What is returned are the
requests on the lines. -/
def intrComplete (l : Lines) (s : Pru) : Byte × Pru :=
  if (l 6 0).getLsbD 5 then (0, s)
  else
    let idx := s.arb.intrLevelIndex
    let s := ((s.setbits 4 (bit 3) 0).setbyte 0 0).setbyte 1 0
    let s := s.modifyEvents fun events => { events with
      intrMaster := Function.update events.intrMaster idx (events.intrMaster idx).signal }
    (s.arb.deviceRequestSignalledMask, s.modifyArb fun arb => { arb with state := .grantCheck })

/-- `state_arbitration_noop`: grants are passed on, a DMA request needs none. -/
def arbitrationNoop (s : Pru) (granted : Byte) : Byte × Pru :=
  let s := s.setbits 7 bitMask granted
  let s := s.setbits 6 (bit 4) (if s.arb.cpuBusInhibitDmrMask ≠ 0 then bit 4 else 0)
  if s.arb.deviceRequestMask &&& bitNp ≠ 0 then
    (bitNp, s.modifyArb fun arb =>
      { arb with deviceRequestMask := arb.deviceRequestMask &&& ~~~bitNp })
  else (0, s)

/-- `sm_arb_worker_device` -/
def smArbWorkerDevice (l : Lines) (s : Pru) (granted : Byte) : Byte × Pru :=
  match s.arb.state with
  | .grantCheck => s.grantCheck granted
  | .dmaGrantRplySyncWait => s.dmaGrantRplySyncWait l
  | .intrVector => s.intrVector l
  | .intrComplete => s.intrComplete l
  | .noop => s.arbitrationNoop granted

/-- GRANT IN goes to GRANT OUT where this QBone has not signalled a request. -/
def forwardGrants (s : Pru) (cpuGrantMask : Byte) : Pru :=
  let s := s.modifyArb fun arb => { arb with
    deviceForwardedGrantMask := cpuGrantMask &&& ~~~arb.deviceRequestSignalledMask }
  s.setbits 7 bitMask s.arb.deviceForwardedGrantMask

/-- A granted DMA request starts the master. -/
def startMaster (s : Pru) (granted : Byte) : Pru :=
  if granted &&& bitNp ≠ 0 then { s with master := some .start } else s

/-- "Priority Arbitration" -/
def arbitrate (l : Lines) (s : Pru) : Pru :=
  let s := s.smInitializationFunc l
  let grants := l 7 0 &&& bitMask
  let s := s.forwardGrants grants
  if s.registerEventAcked then
    let (granted, s) := s.smArbWorkerDevice l grants
    s.startMaster granted
  else s

/-! ## Commands -/

/-- `ARM2PRU_INTR`: the request, and with it a value for a device register. -/
def arm2pruIntr (s : Pru) : Pru :=
  let intr := s.mailbox.intr
  let s := s.modifyArb fun arb =>
    { arb with deviceRequestMask := arb.deviceRequestMask ||| intr.priorityArbitrationBit }
  if intr.iopageRegisterHandle ≠ 0 then
    let pages := s.emulation.pages
    let reg := { pages.registers intr.iopageRegisterHandle with value := intr.iopageRegisterValue }
    s.withEmulation { s.emulation with pages := { pages with
      registers := Function.update pages.registers intr.iopageRegisterHandle reg } }
  else s

/-- `ARM2PRU_INITALIZATIONSIGNAL_SET`: POK, DCOK, INIT or HALT, by their bits in register 5. -/
def arm2pruInitalizationsignalSet (s : Pru) : Pru :=
  let signal := s.mailbox.initializationsignal
  let drive := fun i => s.setbits 5 (bit i) (if signal.val = 0 then 0 else bit i)
  if signal.id = 1 <<< 3 then drive 3
  else if signal.id = 1 <<< 4 then drive 4
  else if signal.id = 1 <<< 0 then drive 0
  else if signal.id = 1 <<< 1 then drive 1
  else s

/-- `ARM2PRU_BUSLATCH_GET`: read a latch. -/
def arm2pruBuslatchGet (l : Lines) (s : Pru) : Pru :=
  let reg := (s.mailbox.buslatch.addr &&& 7).toNat
  { s with mailbox := { s.mailbox with buslatch := { s.mailbox.buslatch with
    val := (l reg 0).setWidth 32 } } }

/-- `ARM2PRU_BUSLATCH_SET`: write a latch and read it back. -/
def arm2pruBuslatchSet (l : Lines) (s : Pru) : Pru :=
  let latch := s.mailbox.buslatch
  let s := s.setbits (latch.addr &&& 7).toNat (latch.bitmask.setWidth 8) (latch.val.setWidth 8)
  s.arm2pruBuslatchGet l

/-- `ARB_CPU_BUS_INHIBIT_DMR_ARM` -/
def arbCpuBusInhibitDmrArm : Byte := 0x01

/-- `ARM2PRU_CPU_BUS_ACCESS`: a DMR that nobody uses keeps a halted CPU from the bus. -/
def arm2pruCpuBusAccess (s : Pru) : Pru :=
  s.modifyArb fun arb => { arb with
    cpuBusInhibitDmrMask :=
      if s.mailbox.param = 0 then arb.cpuBusInhibitDmrMask ||| arbCpuBusInhibitDmrArm
      else arb.cpuBusInhibitDmrMask &&& ~~~arbCpuBusInhibitDmrArm }

/-- The effect of the command in the mailbox. There is no CPU to grant interrupts to. -/
def arm2pru (l : Lines) (s : Pru) : Pru :=
  match s.mailbox.arm2pruReq with
  | .none => s
  | .nop => s
  | .arbModeNone => s.modifyArb fun arb => { arb with state := .noop }
  | .arbModeClient => s.modifyArb fun arb => { arb with state := .grantCheck }
  | .dma =>
    s.modifyArb fun arb =>
      if s.mailbox.dma.cpuAccess then { arb with cpuRequest := true }
      else { arb with deviceRequestMask := arb.deviceRequestMask ||| bitNp }
  | .intr => s.arm2pruIntr
  | .intrCancel =>
    s.modifyArb fun arb => { arb with
      deviceRequestMask := arb.deviceRequestMask &&& ~~~s.mailbox.intr.priorityArbitrationBit }
  | .arbGrantIntrRequests => s
  | .initalizationsignalSet => s.arm2pruInitalizationsignalSet
  | .buslatchSet => s.arm2pruBuslatchSet l
  | .buslatchGet => s.arm2pruBuslatchGet l
  | .cpuBusAccess => s.arm2pruCpuBusAccess

/-- A command is acknowledged by clearing the request. -/
def acknowledge (s : Pru) : Pru := { s with mailbox := { s.mailbox with arm2pruReq := .none } }

/-! ## The loop -/

/-- One pass of the data slave. The main loop calls it again until it stops, or ARM has to act. -/
def slaveStep (l : Lines) (s : Pru) : Pru :=
  let (result, s) := s.smDataSlave l s.slave.state
  match result with
  | .next state => { s with slave := { s.slave with state := state } }
  | .ret state =>
    { s with
      slave := { s.slave with state := state }
      phase := if state ≠ .stop ∧ s.registerEventAcked then .slave else .arbitrate }

/-- One step of the main loop. -/
def mainStep (l : Lines) (s : Pru) : Pru :=
  match s.phase with
  | .slave =>
    match s.master with
    | none => s.slaveStep l
    | some st =>
      let (next, s) := s.smDma l st
      { s with master := next, phase := .command }
  | .arbitrate => { s.arbitrate l with phase := .command }
  | .command => { (s.arm2pru l).acknowledge with phase := .slave }

end QUniBone.PruQ.Pru
