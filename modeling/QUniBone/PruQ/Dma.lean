import QUniBone.PruQ.State
import QUniBone.PruU.Dma

/-!
# Bus master cycles of the QBone

`pru1_q/pru1_statemachine_dma.c`: data transfers of devices, in blocks where the slave can do
that. The state machine is called once in a round of the main loop and returns the state to be
called next, or `NULL` when the transfer is over.

* `smDma`: one call.
-/

namespace QUniBone.PruQ

open PruU (Lines dmaStateReady dmaStateRunning dmaStateTimeoutstop dmaStateInitstop lowByte
  highByte)

/-- `QUNIBUS_TIMEOUT_PERIOD_US` -/
def qunibusTimeoutPeriodUs : ℕ := 8

namespace Pru

/-- `sm_dma_start` -/
def smDmaStart (s : Pru) : Option DmaState × Pru :=
  let s := s.modifyMailboxDma fun dma =>
    { dma with curAddr := dma.startaddr, curStatus := dmaStateRunning }
  (some .addr, { s with dma := { s.dma with
    dataptr := 0, wordsLeft := s.mailbox.dma.wordcount } })

/-- The last address of a block: eight words at most, within 32 bytes. -/
def blockEnd (addr : UInt) (wordsLeft : Word) : UInt :=
  let words := if wordsLeft < 8 then wordsLeft else 8
  let end1 := addr + 2 * (words.setWidth 32 - 1)
  let end2 := addr ||| 0x1e
  if end1 < end2 then end1 else end2

/-- `sm_dma_state_addr`: address, BS7 and WTBT onto the bus, then SYNC. -/
def smDmaStateAddr (s : Pru) : Option DmaState × Pru :=
  let addr := s.mailbox.dma.curAddr
  if s.mailbox.dma.curStatus ≠ dmaStateRunning ∨ s.mailbox.dma.wordcount = 0 then (none, s)
  else
    let isDato := cycleIsDato s.mailbox.dma.buscycle
    let s := (s.setbyte 0 (addr.setWidth 8)).setbyte 1 ((addr >>> 8).setWidth 8)
    let s := s.setbyte 2 ((addr >>> 16).setWidth 8)
    let s := s.setbits 4 (bit 4 ||| bit 5)
      ((if addr &&& iopageAddrBitmask ≠ 0 then bit 5 else 0) ||| (if isDato then bit 4 else 0))
    let next := if isDato then DmaState.doutStart else .dinStart
    let s := { s with dma := { s.dma with
      stateTimeout := false
      blockEndAddr := blockEnd addr s.dma.wordsLeft
      firstDataPortion := true
      blockDataStateFunc := some next } }
    (some next, s.setbits 4 (bit 0) (bit 0))

/-- The end of a block, seen by the state after the data portion. -/
def endBlock (s : Pru) : Pru := { s with dma := { s.dma with blockDataStateFunc := none } }

def setDmaTimeout (s : Pru) : Pru :=
  { s with timeouts := s.timeouts.set .dma (QUniBone.Timeouts.microsecs qunibusTimeoutPeriodUs) }

def setDmaWord (s : Pru) (w : Word) : Pru :=
  s.modifyMailboxDma fun dma =>
    { dma with words := Function.update dma.words s.dma.dataptr w }

/-- The address leaves DAL before the first data portion. -/
def clearAddress (s : Pru) : Pru :=
  if s.dma.firstDataPortion then
    ({ s with dma := { s.dma with firstDataPortion := false } } : Pru).setbyte 3 0x03
  else s

/-- A DIN that this QBone has answered itself. -/
def answerDin (s : Pru) (data : Word) : Pru :=
  let s := (s.setbyte 0 (lowByte data)).setbyte 1 (highByte data)
  let s := (s.setbits 4 (bit 3) (bit 3)).setDmaWord data
  (s.setbits 4 (bit 1 ||| bit 3) 0).setbyte 3 0x02

/-- `sm_dma_state_din_start` -/
def smDmaStateDinStart (s : Pru) : Option DmaState × Pru :=
  let addr := s.mailbox.dma.curAddr
  let last := addr == s.dma.blockEndAddr
  let s := s.setbits 4 (bit 5 ||| bit 1) (if last then bit 1 else 0xff)
  let s := s.clearAddress
  let (answer, e) := emulatedAddrRead s.emulation addr
  let s := s.withEmulation e
  match answer with
  | some (_, data) =>
    let s := s.answerDin data
    (some .state99, if last then s.endBlock else s)
  | none => (some .dinComplete, s.setDmaTimeout)

/-- The address leaves the bus before the first DOUT of a block. -/
def firstDout (s : Pru) (isDatob : Bool) : Pru :=
  if s.dma.firstDataPortion then
    let s := { s.setbyte 2 0 with dma := { s.dma with firstDataPortion := false } }
    s.setbits 4 (bit 4 ||| bit 5) (if isDatob then bit 4 else 0)
  else s

/-- `sm_dma_state_dout_start`: data and DOUT onto the bus. -/
def putDout (s : Pru) (isDatob : Bool) (data : Word) : Pru :=
  let s := (s.setbyte 0 (lowByte data)).setbyte 1 (highByte data)
  (s.firstDout isDatob).setbits 4 (bit 2) (bit 2)

/-- A DOUT that this QBone has answered itself. -/
def answerDout (s : Pru) : Pru :=
  let s := (s.setbits 4 (bit 3) (bit 3)).setbits 4 (bit 2) 0
  (s.setbyte 3 0x02).setbits 4 (bit 3) 0

/-- `sm_dma_state_dout_start` -/
def smDmaStateDoutStart (s : Pru) : Option DmaState × Pru :=
  let addr := s.mailbox.dma.curAddr
  let isDatob := s.mailbox.dma.buscycle == cycleDatob
  let data := s.mailbox.dma.words s.dma.dataptr
  let s := s.putDout isDatob data
  let (internal, e) :=
    if isDatob then
      emulatedAddrWriteB s.emulation addr
        (if addr.getLsbD 0 then highByte data else lowByte data)
    else emulatedAddrWriteW s.emulation addr data
  let s := s.withEmulation e
  if internal.isSome then
    let s := s.answerDout
    (some .state99, if addr = s.dma.blockEndAddr then s.endBlock else s)
  else (some .doutComplete, s.setDmaTimeout)

/-- `TIMEOUT_REACHED(TIMEOUT_DMA)`, kept in `state_timeout`. -/
def pollDmaTimeout (s : Pru) : Pru :=
  { s with
    dma := { s.dma with stateTimeout := s.timeouts.reached .dma }
    timeouts := s.timeouts.restart }

/-- The wait for RPLY: the timer is looked at only while there is none. -/
def waitRply (l : Lines) (s : Pru) : Bool × Pru :=
  if (l 4 0).getLsbD 3 then (true, s)
  else
    let s := s.pollDmaTimeout
    (s.dma.stateTimeout, s)

/-- `sm_dma_state_din_complete` -/
def smDmaStateDinComplete (l : Lines) (s : Pru) : Option DmaState × Pru :=
  let (ready, s) := s.waitRply l
  if ready = false then (some .dinComplete, s)
  else
    let s := s.setDmaWord ((l 0 0).setWidth 16 ||| ((l 1 0).setWidth 16 <<< 8))
    let s := if s.mailbox.dma.curAddr = s.dma.blockEndAddr ∨ (l 4 1).getLsbD 6 = false then
      s.endBlock else s
    (some .state99, s.setbits 4 (bit 1) 0)

/-- `sm_dma_state_dout_complete` -/
def smDmaStateDoutComplete (l : Lines) (s : Pru) : Option DmaState × Pru :=
  let (ready, s) := s.waitRply l
  if ready = false then (some .doutComplete, s)
  else
    let s := s.setbits 4 (bit 2) 0
    let s := if s.mailbox.dma.curAddr = s.dma.blockEndAddr ∨ (l 4 1).getLsbD 6 = false then
      (s.endBlock.setbyte 3 0x02).setbits 4 (bit 4) 0 else s
    (some .state99, s)

/-- The end of a transfer: SACK away, SYNC away, event to ARM. -/
def finishDma (s : Pru) (status : Byte) : Pru :=
  let s := (s.setbits 6 (bit 7) 0).setbits 4 (bit 0 ||| bit 5) 0
  let s := s.modifyMailboxDma fun dma => { dma with curStatus := status }
  s.modifyEvents fun events => { events with dma := events.dma.signal }

/-- `sm_dma_state_99`: a word is transferred, or it has timed out. -/
def smDmaState99 (l : Lines) (s : Pru) : Option DmaState × Pru :=
  if s.dma.stateTimeout then (none, s.finishDma dmaStateTimeoutstop)
  else
    let s := { s with dma := { s.dma with
      dataptr := s.dma.dataptr + 1, wordsLeft := s.dma.wordsLeft - 1 } }
    if s.dma.wordsLeft = 0 then (none, s.finishDma dmaStateReady)
    else if (l 5 0).getLsbD 0 then (none, s.finishDma dmaStateInitstop)
    else
      let s := s.modifyMailboxDma fun dma => { dma with curAddr := dma.curAddr + 2 }
      if s.dma.blockDataStateFunc.isSome then (s.dma.blockDataStateFunc, s)
      else (some .addr, s.setbits 4 (bit 0 ||| bit 5) 0)

/-- One call of the DMA state machine. -/
def smDma (l : Lines) (s : Pru) : DmaState → Option DmaState × Pru
  | .start => s.smDmaStart
  | .addr => s.smDmaStateAddr
  | .dinStart => s.smDmaStateDinStart
  | .dinComplete => s.smDmaStateDinComplete l
  | .doutStart => s.smDmaStateDoutStart
  | .doutComplete => s.smDmaStateDoutComplete l
  | .state99 => s.smDmaState99 l

end Pru

end QUniBone.PruQ
