import QUniBone.PruU.State

/-!
# Bus master cycles of the UniBone

`pru1_statemachine_dma.c` and `pru1_statemachine_intr_master.c`. A master state machine is
called once in a round of the main loop and returns the state to be called next, or `NULL` when
the transaction is over.

* `smDma`: data transfers, of devices and of an emulated CPU.
* `smIntrMaster`: the transmission of an interrupt vector.
-/

namespace QUniBone.PruU

/-- `UNIBUS_TIMEOUT_PERIOD_US` -/
def unibusTimeoutPeriodUs : ℕ := 20

/-- Bits 7:0 and 15:8 of a word, for the two halves of the data lines. -/
def lowByte (w : Word) : Byte := w.setWidth 8

def highByte (w : Word) : Byte := (w >>> 8).setWidth 8

namespace Pru

/-! ## Data transfers -/

/-- `sm_dma_start`: assert BBSY, begin with the first word. -/
def smDmaStart (s : Pru) : Option DmaState × Pru :=
  let s := s.modifyMailboxDma fun dma =>
    { dma with curAddr := dma.startaddr, curStatus := dmaStateRunning }
  let s := { s with dma := { s.dma with
    dataptr := 0, curWordsleft := s.mailbox.dma.wordcount } }
  (some .state1, s.setbits 1 (bit 6) (bit 6))

/-- Address and control lines of the next cycle, without MSYN and SSYN. -/
def putAddress (s : Pru) (addr : UInt) (control : Byte) : Pru :=
  let s := s.setbyte 2 (addr.setWidth 8)
  let s := s.setbyte 3 ((addr >>> 8).setWidth 8)
  s.setbits 4 0x3f (((addr >>> 16).setWidth 8 &&& 3) ||| control)

def putData (s : Pru) (data : Word) : Pru :=
  (s.setbyte 5 (lowByte data)).setbyte 6 (highByte data)

/-- The end of a cycle that this UniBone has answered itself: SSYN, MSYN away, data away, SSYN
away. Nothing waits for ARM here. -/
def answerInternally (s : Pru) : Pru :=
  let s := s.setbits 4 (bit 5) (bit 5)
  let s := s.setbits 4 (bit 4) 0
  let s := s.putData 0
  s.setbits 4 (bit 5) 0

def withEmulation (s : Pru) (e : Emulation) : Pru := { s with emulation := e }

/-- The word at the data pointer. -/
def dmaWord (s : Pru) : Word := s.mailbox.dma.words s.dma.dataptr

def setDmaWord (s : Pru) (w : Word) : Pru :=
  s.modifyMailboxDma fun dma =>
    { dma with words := Function.update dma.words s.dma.dataptr w }

def setDmaTimeout (s : Pru) : Pru :=
  { s with timeouts := s.timeouts.set .dma (Timeouts.microsecs unibusTimeoutPeriodUs) }

/-- The address on the bus: the M9312 may have laid a pattern over it. -/
def busAddr (s : Pru) : UInt := s.mailbox.dma.curAddr ||| s.addressOverlay

/-- DATO and DATOB in `sm_dma_state_1`. The wait for SSYN to be clear is not a state. -/
def smDmaWrite (s : Pru) : Option DmaState × Pru :=
  let addr := s.busAddr
  let isDatob := s.mailbox.dma.buscycle == cycleDatob
  let data := s.dmaWord
  let s := s.putAddress addr (if isDatob then bit 3 ||| bit 2 else bit 3)
  let s := s.putData data
  let s := s.setbits 4 (bit 4) (bit 4)
  let (internal, e) :=
    if isDatob then
      emulatedAddrWriteB s.emulation addr
        (if addr.getLsbD 0 then highByte data else lowByte data)
    else emulatedAddrWriteW s.emulation addr data
  let s := s.withEmulation e
  if internal then (some .state99, s.answerInternally)
  else (some .state21, s.setDmaTimeout)

/-- DATI and DATIP in `sm_dma_state_1` -/
def smDmaRead (s : Pru) : Option DmaState × Pru :=
  let addr := s.busAddr
  let s := s.putAddress addr 0
  let s := s.setbits 4 (bit 4) (bit 4)
  let (answer, e) := emulatedAddrRead s.emulation addr
  let s := s.withEmulation e
  match answer with
  | some data => (some .state99, ((s.putData data).setDmaWord data).answerInternally)
  | none => (some .state11, s.setDmaTimeout)

/-- `sm_dma_state_1`: put address, control and data onto the bus, assert MSYN. -/
def smDmaState1 (s : Pru) : Option DmaState × Pru :=
  if s.mailbox.dma.curStatus ≠ dmaStateRunning ∨ s.mailbox.dma.wordcount = 0 then (none, s)
  else
    -- SACK is released in parallel to the last word.
    let s := if s.dma.curWordsleft = 1 then s.setbits 1 (bit 5) 0 else s
    let s := { s with dma := { s.dma with stateTimeout := false } }
    if cycleIsDato s.mailbox.dma.buscycle then s.smDmaWrite else s.smDmaRead

/-- `timeout_reached(TIMEOUT_DMA)`, kept in `state_timeout`. -/
def pollDmaTimeout (s : Pru) : Pru :=
  { s with
    dma := { s.dma with stateTimeout := s.timeouts.reached .dma }
    timeouts := s.timeouts.poll .dma }

/-- `sm_dma_state_11`: DATI, wait for the SSYN of another slave. -/
def smDmaState11 (l : Lines) (s : Pru) : Option DmaState × Pru :=
  let s := s.pollDmaTimeout
  if s.dma.stateTimeout = false ∧ (l 4 0).getLsbD 5 = false then (some .state11, s)
  else
    let s := s.setDmaWord ((l 5 0).setWidth 16 ||| ((l 6 0).setWidth 16 <<< 8))
    (some .state99, s.setbits 4 (bit 4) 0)

/-- `sm_dma_state_21`: DATO, wait for the SSYN of another slave. -/
def smDmaState21 (l : Lines) (s : Pru) : Option DmaState × Pru :=
  let s := s.pollDmaTimeout
  if s.dma.stateTimeout = false ∧ (l 4 0).getLsbD 5 = false then (some .state21, s)
  else (some .state99, (s.setbits 4 (bit 4) 0).putData 0)

/-- The end of a transfer: address and control away, BBSY away, event to ARM. -/
def finishDma (s : Pru) (status : Byte) : Pru :=
  let s := (s.setbyte 2 0).setbyte 3 0
  let s := s.setbits 4 0x3f 0
  let s := s.setbits 1 (bit 6) 0
  let s := { s with timeouts := s.timeouts.cleanup .dma }
  let s := s.modifyMailboxDma fun dma => { dma with curStatus := status }
  s.modifyEvents fun events => { events with dma := events.dma.signal }

/-- `sm_dma_state_99`: a word is transferred, or it has timed out. -/
def smDmaState99 (l : Lines) (s : Pru) : Option DmaState × Pru :=
  if s.dma.stateTimeout then
    (none, (s.setbits 1 (bit 5) 0).finishDma dmaStateTimeoutstop)
  else
    let s := { s with dma := { s.dma with
      dataptr := s.dma.dataptr + 1, curWordsleft := s.dma.curWordsleft - 1 } }
    if s.dma.curWordsleft = 0 then (none, s.finishDma dmaStateReady)
    else if (l 7 0).getLsbD 3 then
      (none, (s.setbits 1 (bit 5) 0).finishDma dmaStateInitstop)
    else
      (some .state1, s.modifyMailboxDma fun dma => { dma with curAddr := dma.curAddr + 2 })

/-- One call of the DMA state machine. -/
def smDma (l : Lines) (s : Pru) : DmaState → Option DmaState × Pru
  | .start => s.smDmaStart
  | .state1 => s.smDmaState1
  | .state11 => s.smDmaState11 l
  | .state21 => s.smDmaState21 l
  | .state99 => s.smDmaState99 l

/-! ## Interrupt vectors -/

/-- `sm_intr_master_start` -/
def smIntrMasterStart (s : Pru) : Option IntrMasterState × Pru :=
  (some .state1, s.setbits 1 (bit 6) (bit 6))

/-- `sm_intr_master_state_1`: vector and INTR onto the bus, SACK away. -/
def smIntrMasterState1 (s : Pru) : Option IntrMasterState × Pru :=
  let s := s.putData s.intrMaster.vector
  let s := s.setbits 7 (bit 0) (bit 0)
  (some .state2, s.setbits 1 (bit 5) 0)

/-- `sm_intr_master_state_2`: wait for SSYN, and for ARM to have seen the last event. -/
def smIntrMasterState2 (l : Lines) (s : Pru) : Option IntrMasterState × Pru :=
  let idx := s.intrMaster.levelIndex
  if (l 4 0).getLsbD 5 = false then (some .state2, s)
  else if (s.mailbox.events.intrMaster idx).isAcked = false then (some .state2, s)
  else
    let s := (s.putData 0).setbits 7 (bit 0) 0
    let s := s.setbits 1 (bit 6) 0
    (none, s.modifyEvents fun events => { events with
      intrMaster := Function.update events.intrMaster idx (events.intrMaster idx).signal })

/-- One call of the interrupt master. -/
def smIntrMaster (l : Lines) (s : Pru) : IntrMasterState → Option IntrMasterState × Pru
  | .start => s.smIntrMasterStart
  | .state1 => s.smIntrMasterState1
  | .state2 => s.smIntrMasterState2 l

/-- One call of `sm_data_master_state`. -/
def smDataMaster (l : Lines) (s : Pru) : Master → Pru
  | .dma st =>
    let (next, t) := s.smDma l st
    { t with master := next.map .dma }
  | .intr st =>
    let (next, t) := s.smIntrMaster l st
    { t with master := next.map .intr }

end Pru

end QUniBone.PruU
