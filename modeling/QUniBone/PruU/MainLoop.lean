import QUniBone.PruU.Arbitration
import QUniBone.PruU.Slave

/-!
# The main loop of the UniBone's PRU

`pru1_main_unibus.c`. A round of the loop runs in steps, between which ARM may do anything: the
calls of the data slave, the arbitration, or instead of both one state of a running master; then
the interrupt slave and one command of ARM.

* `doEventInitializationsignals`: INIT and power signals.
* `arm2pru`: the commands.
* `mainStep`: one step of the loop.
-/

namespace QUniBone.PruU.Pru

open PriorityArbitration

/-! ## INIT and power -/

/-- `INITIALIZATIONSIGNAL_INIT` -/
def initializationsignalInit : Byte := bit 3

/-- `INITIALIZATIONSIGNAL_ACLO | INITIALIZATIONSIGNAL_DCLO` -/
def initializationsignalPower : Byte := bit 4 ||| bit 5

/-- The power event of `do_event_initializationsignals`. -/
def doEventPower (s : Pru) (cur : Byte) : Pru :=
  let prev := s.mailbox.events.powerSignalsCur
  if (prev ^^^ cur) &&& initializationsignalPower ≠ 0 then
    s.modifyEvents fun events => { events with
      powerSignalsPrev := prev
      powerSignalsCur := cur &&& initializationsignalPower
      power := events.power.signal }
  else s

/-- The INIT event of `do_event_initializationsignals`. -/
def doEventInit (s : Pru) (cur : Byte) : Pru :=
  let prev := s.mailbox.events.initSignalCur
  if (prev ^^^ cur) &&& initializationsignalInit ≠ 0 then
    let s := if prev = 0 then s.withEmulation s.emulation.resetValues else s
    s.modifyEvents fun events => { events with
      initSignalCur := cur &&& initializationsignalInit
      init := events.init.signal }
  else s

/-- `do_event_initializationsignals`. INIT drops the requests, not a grant that is accepted. -/
def doEventInitializationsignals (l : Lines) (s : Pru) : Pru :=
  let cur := l 7 0 &&& 0x38
  let s := if cur &&& initializationsignalInit ≠ 0 then
    s.modifyArb fun arb => { arb with deviceRequestMask := 0 } else s
  (s.doEventPower cur).doEventInit cur

/-! ## Arbitration -/

/-- GRANT IN goes to GRANT OUT where this UniBone has not signalled a request. -/
def forwardGrants (s : Pru) (cpuGrantMask : Byte) : Pru :=
  let s := s.modifyArb fun arb => { arb with
    deviceForwardedGrantMask := cpuGrantMask &&& ~~~arb.deviceRequestSignalledMask }
  s.setbits 0 bitMask (~~~s.arb.deviceForwardedGrantMask)

/-- A granted request starts its master. -/
def startMaster (s : Pru) (granted : Byte) : Pru :=
  if granted &&& bitNp ≠ 0 then { s with master := some (.dma .start) }
  else if granted &&& intrMask ≠ 0 then
    let idx := lmbd granted
    { s with
      intrMaster := ⟨s.mailbox.intr.vector idx, idx⟩
      master := some (.intr .start) }
  else s

/-- The grants a device sees: those of the physical CPU, or of the emulated one. -/
def grantsSeen (l : Lines) (s : Pru) : Byte × Pru :=
  if s.emulateCpu then s.smArbWorkerCpu l else (l 0 0 &&& bitMask, s)

/-- "Priority Arbitration" -/
def arbitrate (l : Lines) (s : Pru) : Pru :=
  let s := s.doEventInitializationsignals l
  let s := if s.emulateCpu then s else s.forwardGrants (l 0 0 &&& bitMask)
  if s.registerEventAcked then
    let (cpuGrantMask, s) := s.grantsSeen l
    let (granted, s) := s.deviceArbWorker l cpuGrantMask
    s.startMaster granted
  else s

/-! ## Commands -/

/-- `ARM2PRU_INTR`: the request, and with it a value for a device register. -/
def arm2pruIntr (s : Pru) : Pru :=
  let intr := s.mailbox.intr
  let s := s.modifyArb fun arb =>
    { arb with deviceRequestMask := arb.deviceRequestMask ||| intr.priorityArbitrationBit }
  if intr.iopageRegisterHandle ≠ 0 then
    let pages := s.emulation.pages
    let reg := { pages.registers intr.iopageRegisterHandle with value := intr.iopageRegisterValue }
    s.withEmulation { s.emulation with pages := { pages with
      registers := Function.update pages.registers intr.iopageRegisterHandle reg } }
  else s

/-- `ARM2PRU_INITALIZATIONSIGNAL_SET`: ACLO, DCLO or INIT. -/
def arm2pruInitalizationsignalSet (s : Pru) : Pru :=
  let signal := s.mailbox.initializationsignal
  let drive := fun i => s.setbits 7 (bit i) (if signal.val = 0 then 0 else bit i)
  if signal.id = 1 <<< 4 then drive 4
  else if signal.id = 1 <<< 5 then drive 5
  else if signal.id = 1 <<< 3 then drive 3
  else s

/-- `ARM2PRU_ADDRESS_OVERLAY`: the pattern goes onto the address lines at once. -/
def arm2pruAddressOverlay (s : Pru) : Pru :=
  let overlay := s.mailbox.addressOverlay
  let s := { s with addressOverlay := overlay }
  let s := (s.setbyte 2 (overlay.setWidth 8)).setbyte 3 ((overlay >>> 8).setWidth 8)
  s.setbits 4 0x03 ((overlay >>> 16).setWidth 8)

/-- `ARM2PRU_BUSLATCH_GET`: read a latch. -/
def arm2pruBuslatchGet (l : Lines) (s : Pru) : Pru :=
  let reg := (s.mailbox.buslatch.addr &&& 7).toNat
  { s with mailbox := { s.mailbox with buslatch := { s.mailbox.buslatch with
    val := (l reg 3).setWidth 32 } } }

/-- `ARM2PRU_BUSLATCH_SET`: write a latch and read it back. -/
def arm2pruBuslatchSet (l : Lines) (s : Pru) : Pru :=
  let latch := s.mailbox.buslatch
  let s := s.setbits (latch.addr &&& 7).toNat (latch.bitmask.setWidth 8) (latch.val.setWidth 8)
  s.arm2pruBuslatchGet l

/-- `ARM2PRU_CPU_ENABLE`: a change resets the arbitration. The flag is compared as a number. -/
def arm2pruCpuEnable (s : Pru) : Pru :=
  let param := s.mailbox.param
  if (if s.emulateCpu then 1 else 0) ≠ param then
    ({ s with emulateCpu := param != 0 } : Pru).smArbReset
  else s

/-- The effect of the command in the mailbox. -/
def arm2pru (l : Lines) (s : Pru) : Pru :=
  match s.mailbox.arm2pruReq with
  | .none => s
  | .nop => s
  | .arbModeNone => { s with arbWorker := .none }
  | .arbModeClient => { s with arbWorker := .device }
  | .dma =>
    s.modifyArb fun arb =>
      if s.mailbox.dma.cpuAccess then { arb with cpuRequest := true }
      else { arb with deviceRequestMask := arb.deviceRequestMask ||| bitNp }
  | .intr => s.arm2pruIntr
  | .intrCancel =>
    s.modifyArb fun arb => { arb with
      deviceRequestMask := arb.deviceRequestMask &&& ~~~s.mailbox.intr.priorityArbitrationBit }
  | .arbGrantIntrRequests =>
    if s.emulateCpu then
      { s with mailbox := { s.mailbox with
        arbitrator := { s.mailbox.arbitrator with ifsIntrArbitrationPending := true } } }
    else s
  | .initalizationsignalSet => s.arm2pruInitalizationsignalSet
  | .cpuEnable => s.arm2pruCpuEnable
  | .addressOverlay => s.arm2pruAddressOverlay
  | .buslatchSet => s.arm2pruBuslatchSet l
  | .buslatchGet => s.arm2pruBuslatchGet l

/-- A command is acknowledged by clearing the request. -/
def acknowledge (s : Pru) : Pru := { s with mailbox := { s.mailbox with arm2pruReq := .none } }

/-! ## The loop -/

/-- One call of the data slave. The calls go on until it stops, or ARM has to act. -/
def slaveStep (l : Lines) (s : Pru) : Pru :=
  let (next, s) := s.smDataSlave l (s.slave.getD .start)
  { s with
    slave := next
    phase := if next.isSome && s.registerEventAcked then .slave else .arbitrate }

/-- The interrupt slave, if the CPU is emulated. -/
def intrSlaveStep (l : Lines) (s : Pru) : Pru :=
  if s.emulateCpu then
    let (next, s) := s.smIntrSlave l (s.intrSlave.getD .start)
    { s with intrSlave := next }
  else s

/-- One step of the main loop. -/
def mainStep (l : Lines) (s : Pru) : Pru :=
  match s.phase with
  | .slave =>
    match s.master with
    | none => s.slaveStep l
    | some m => { s.smDataMaster l m with phase := .command }
  | .arbitrate => { s.arbitrate l with phase := .command }
  | .command =>
    let s := ((s.intrSlaveStep l).arm2pru l).acknowledge
    { s with phase := .slave }

end QUniBone.PruU.Pru
