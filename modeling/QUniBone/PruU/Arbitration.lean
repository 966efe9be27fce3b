import QUniBone.PruU.State

/-!
# The arbitration workers of the UniBone

`pru1_statemachine_arbitration.c`. A worker is run once in every round of the main loop. The
device worker answers grants, the CPU worker makes them when the CPU is emulated.

* `smArbReset`: the workers' idle state.
* `smArbWorkerNone`, `smArbWorkerDevice`: requests and their grants, seen by a device.
* `smArbWorkerCpu`: requests and their grants, seen by the arbitrator.
-/

namespace QUniBone.PruU

open PriorityArbitration

/-- `ARB_MASTER_SACK_TIMOUT_MS` -/
def arbMasterSackTimoutMs : ℕ := 10

/-- `__lmbd(mask, 1)` for the four request lines: the position of the leftmost bit. -/
def lmbd (mask : Byte) : ℕ :=
  if mask.getLsbD 3 then 3 else if mask.getLsbD 2 then 2 else if mask.getLsbD 1 then 1 else 0

namespace Pru

def modifyArb (s : Pru) (f : SmArb → SmArb) : Pru := { s with arb := f s.arb }

/-- `sm_arb_reset` -/
def smArbReset (s : Pru) : Pru :=
  let s := s.setbits 1 (bitMask ||| bit 5) 0
  { s with
    arb := ⟨0, 0, 0, 0, false, 0⟩
    timeouts := s.timeouts.cleanup .sack }

/-- `sm_arb_worker_none`: grants are passed on, a DMA request needs none. -/
def smArbWorkerNone (s : Pru) (grantMask : Byte) : Byte × Pru :=
  let s := s.setbits 0 bitMask (~~~grantMask)
  if s.arb.deviceRequestMask &&& bitNp ≠ 0 then
    (bitNp, s.modifyArb fun arb =>
      { arb with deviceRequestMask := arb.deviceRequestMask &&& ~~~bitNp })
  else (0, s)

/-- The access of an emulated CPU waits for NPR, BBSY and SACK to be clear, and for a BR if the
next thing is an opcode fetch. -/
def cpuAccessGranted (s : Pru) (latch1val : Byte) : Bool :=
  if latch1val &&& 0x70 ≠ 0 then false
  else if latch1val &&& 0xf ≠ 0 ∧ s.mailbox.arbitrator.ifsIntrArbitrationPending then false
  else true

/-- State 1 of `sm_arb_worker_device`: wait for a grant of one of the requests. -/
def waitForGrant (s : Pru) (granted : Byte) : Pru :=
  let deviceGrantMask :=
    granted &&& s.arb.deviceRequestMask &&& ~~~s.arb.deviceForwardedGrantMask
  if deviceGrantMask ≠ 0 then
    -- SACK is set and the request line cleared in one access.
    let s := s.setbits 1 ((bitMask &&& s.arb.deviceRequestMask) ||| bit 5)
      (~~~deviceGrantMask ||| bit 5)
    s.modifyArb fun arb => { arb with
      deviceRequestMask := arb.deviceRequestMask &&& ~~~deviceGrantMask
      grantBbsySsynWaitGrantMask := deviceGrantMask }
  else s

/-- State 2 of `sm_arb_worker_device`: wait for the grant, BBSY and SSYN to be removed. -/
def waitForBus (l : Lines) (s : Pru) (granted : Byte) : Byte × Pru :=
  let wait := s.arb.grantBbsySsynWaitGrantMask
  if granted &&& wait ≠ 0 then (0, s)
  else if (l 1 2).getLsbD 6 then (0, s)
  else if (l 4 0).getLsbD 5 then (0, s)
  else (wait, s.modifyArb fun arb => { arb with grantBbsySsynWaitGrantMask := 0 })

/-- `sm_arb_worker_device` -/
def smArbWorkerDevice (l : Lines) (s : Pru) (granted : Byte) : Byte × Pru :=
  if s.arb.cpuRequest ∧ s.cpuAccessGranted (l 1 1) then
    (bitNp, s.modifyArb fun arb => { arb with cpuRequest := false })
  else
    let s := s.setbits 1 bitMask s.arb.deviceRequestMask
    let s := s.modifyArb fun arb =>
      { arb with deviceRequestSignalledMask := arb.deviceRequestMask }
    if s.arb.grantBbsySsynWaitGrantMask = 0 then (0, s.waitForGrant granted)
    else s.waitForBus l granted

/-- The worker selected by `ARM2PRU_ARB_MODE_*`. -/
def deviceArbWorker (l : Lines) (s : Pru) (granted : Byte) : Byte × Pru :=
  match s.arbWorker with
  | .none => s.smArbWorkerNone granted
  | .device => s.smArbWorkerDevice l granted

/-- A new grant of the arbitrator, and its timer. -/
def raiseGrant (s : Pru) (grant : Byte) : Pru :=
  { s with
    arb := { s.arb with arbitratorGrantMask := grant }
    timeouts := s.timeouts.set .sack (Timeouts.millisecs arbMasterSackTimoutMs) }

/-- The level 4 to 7 of the highest of the interrupt requests. -/
def requestedIntrLevel (latch1val : Byte) : Byte :=
  BitVec.ofNat 8 (lmbd (latch1val &&& intrMask)) + 4

/-- The decision of `sm_arb_worker_cpu`. -/
def arbitrateRequests (s : Pru) (latch1val : Byte) : Pru :=
  if latch1val.getLsbD 5 then
    -- SACK: the grant has been answered.
    { s with
      arb := { s.arb with arbitratorGrantMask := 0 }
      timeouts := s.timeouts.cleanup .sack }
  else if latch1val &&& bitNp ≠ 0 then
    if s.arb.arbitratorGrantMask = 0 then s.raiseGrant bitNp else s
  else if s.mailbox.arbitrator.ifsIntrArbitrationPending ∧ latch1val &&& intrMask ≠ 0 then
    if s.arb.arbitratorGrantMask = 0 then
      let level := requestedIntrLevel latch1val
      if level > s.mailbox.arbitrator.ifsPriorityLevel ∧ level ≠ cpuPriorityLevelFetching then
        s.raiseGrant (bit (level - 4).toNat)
      else s
    else s
  else if s.arb.arbitratorGrantMask = 0 then s
  -- `timeout_reached` stops a timer that has run off, then the grant is withdrawn.
  else if s.timeouts.reached .sack then
    { s with
      arb := { s.arb with arbitratorGrantMask := 0 }
      timeouts := (s.timeouts.poll .sack).cleanup .sack }
  else s

/-- `sm_arb_worker_cpu` -/
def smArbWorkerCpu (l : Lines) (s : Pru) : Byte × Pru :=
  let s := s.arbitrateRequests (l 1 0)
  let s := s.setbits 0 bitMask (~~~s.arb.arbitratorGrantMask)
  let s := { s with mailbox := { s.mailbox with
    arbitrator := { s.mailbox.arbitrator with ifsIntrArbitrationPending := false } } }
  (s.arb.arbitratorGrantMask, s)

end Pru

end QUniBone.PruU
