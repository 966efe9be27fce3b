import Mathlib.Data.BitVec

/-!
# DL11 serial line unit

`slu_c` in `dl11w.cpp`: a receiver and a transmitter with two registers each. The CPU's cycles to
the active registers are events, handled by the thread of the bus adapter while the cycle is
stretched; INIT and power events come from the same thread. Receiver and transmitter have worker
threads. What is done under a mutex is one step, except where a worker changes several registers
that the CPU can read in between.

* `Receiver`, `Transmitter`: flags, registers and how far the worker is. What has become of the
  characters is recorded.
* `Cpu`: the event that is still to be handled.
* `State`, `Action`, `step`: the unit and its steps.
-/

namespace QUniBone.Dl11

/-- `rs232byte_t` -/
structure Rs232Byte where
  c : BitVec 8
  formatError : Bool

def RCSR_RCVR_ACT : BitVec 16 := 0o004000
def RCSR_RCVR_DONE : BitVec 16 := 0o000200
def RCSR_RCVR_INT_ENB : BitVec 16 := 0o000100
def RCSR_RDR_ENB : BitVec 16 := 0o000001

def RBUF_ERROR : BitVec 16 := 0o100000
def RBUF_OR_ERR : BitVec 16 := 0o040000
def RBUF_FR_ERR : BitVec 16 := 0o020000
def RBUF_P_ERR : BitVec 16 := 0o010000

def XCSR_XMIT_RDY : BitVec 16 := 0o000200
def XCSR_XMIT_INT_ENB : BitVec 16 := 0o000100
def XCSR_MAINT : BitVec 16 := 0o000004
def XCSR_BREAK : BitVec 16 := 0o000001

/-- A bit of a register that is set by a flag. -/
def flag (b : Bool) (mask : BitVec 16) : BitVec 16 := if b then mask else 0

/-! ## Receiver -/

/-- `worker_rcv`. From `stored` on it holds the mutex. -/
inductive RcvWorker
  /-- before `rs232byte_rcv_poll` -/
  | waiting
  | polled (byte : Rs232Byte)
  /-- the flags and the buffer are set, RBUF is not -/
  | stored (byte : Rs232Byte)
  /-- RBUF is set, RCSR is not -/
  | shown

structure Receiver where
  rcvActive : Bool
  rcvDone : Bool
  rcvIntrEnable : Bool
  rcvOrErr : Bool
  rcvFrErr : Bool
  rcvPErr : Bool
  rcvRdrEnb : Bool
  rcvBuffer : BitVec 8
  /-- of `rcvintr_request`, for the edge detection -/
  signalLevel : Bool
  /-- as read by the CPU -/
  rcsr : BitVec 16
  rbuf : BitVec 16
  worker : RcvWorker
  /-- the characters from the line, when they appear in RBUF -/
  received : List (BitVec 8)
  /-- the one that RBUF shows -/
  shown : Option ℕ
  /-- those that were read while `rcv_done` was set, with the value of RBUF -/
  returned : List (ℕ × BitVec 16)
  /-- those that were shown with the overrun error -/
  flagged : List ℕ

namespace Receiver

/-- The mutex `on_after_rcv_register_access_mutex`. -/
def locked (r : Receiver) : Bool :=
  match r.worker with
  | .stored _ | .shown => true
  | _ => false

/-- `get_rcv_intr_level` -/
def intrLevel (r : Receiver) : Bool := r.rcvDone && r.rcvIntrEnable

/-- The value of RCSR in `set_rcsr_dati_value_and_INTR`. -/
def rcsrValue (r : Receiver) : BitVec 16 :=
  flag r.rcvActive RCSR_RCVR_ACT ||| flag r.rcvDone RCSR_RCVR_DONE |||
    flag r.rcvIntrEnable RCSR_RCVR_INT_ENB

/-- `set_rcsr_dati_value_and_INTR`. With a raising edge `INTR()` sets the register, unless INIT is
asserted. -/
def setRcsr (lineInit : Bool) (r : Receiver) : Receiver :=
  let raising := !r.signalLevel && r.intrLevel
  { r with
    signalLevel := r.intrLevel
    rcsr := if raising && lineInit then r.rcsr else r.rcsrValue }

/-- `eval_rcsr_dato_value` -/
def evalRcsr (lineInit : Bool) (r : Receiver) (val : BitVec 16) : Receiver :=
  let r := { r with
    rcvIntrEnable := val &&& RCSR_RCVR_INT_ENB != 0
    rcvRdrEnb := val &&& RCSR_RDR_ENB != 0 }
  let r := if r.rcvRdrEnb then { r with rcvDone := false } else r
  r.setRcsr lineInit

/-- The value of RBUF in `set_rbuf_dati_value`. -/
def rbufValue (r : Receiver) (errorBitsEnable : Bool) : BitVec 16 :=
  let val := flag r.rcvOrErr RBUF_OR_ERR ||| flag r.rcvFrErr RBUF_FR_ERR |||
    flag r.rcvPErr RBUF_P_ERR
  let val := flag errorBitsEnable (val ||| flag (val != 0) RBUF_ERROR)
  val ||| r.rcvBuffer.setWidth 16

/-- `set_rbuf_dati_value` for a new character. -/
def showRbuf (r : Receiver) (errorBitsEnable : Bool) (byte : Rs232Byte) : Receiver :=
  let val := r.rbufValue errorBitsEnable
  { r with
    rbuf := val
    worker := .shown
    received := r.received ++ [byte.c]
    shown := some r.received.length
    flagged := if val &&& RBUF_OR_ERR != 0 then r.flagged ++ [r.received.length] else r.flagged }

/-- The assignments in `worker_rcv`. -/
def store (r : Receiver) (byte : Rs232Byte) : Receiver :=
  { r with
    rcvOrErr := r.rcvDone
    rcvFrErr := byte.formatError
    rcvPErr := byte.formatError
    rcvBuffer := byte.c
    rcvDone := true
    rcvActive := false
    worker := .stored byte }

/-- A DATI from RBUF. -/
def readRbuf (r : Receiver) : Receiver :=
  match r.rcvDone, r.shown with
  | true, some i => { r with returned := r.returned ++ [(i, r.rbuf)] }
  | _, _ => r

/-- An access to RBUF is handled. -/
def clearDone (lineInit : Bool) (r : Receiver) : Receiver :=
  ({ r with rcvDone := false } : Receiver).setRcsr lineInit

/-- The PRU resets the registers when it sees INIT. -/
def busInit (r : Receiver) : Receiver := { r with rcsr := 0, rbuf := 0, shown := none }

/-- `reset` -/
def reset (r : Receiver) : Receiver :=
  { r.busInit with
    rcvActive := false
    rcvDone := false
    rcvIntrEnable := false
    rcvOrErr := false
    rcvFrErr := false
    rcvPErr := false
    rcvBuffer := 0
    signalLevel := false }

end Receiver

/-! ## Transmitter -/

/-- `worker_xmt`. In `sent` and `cleared` it holds the mutex. -/
inductive XmtWorker
  /-- not yet in `pthread_cond_wait` -/
  | start
  | waiting
  /-- signalled, without the mutex -/
  | woken
  | sent
  | cleared
  /-- waiting for the character to be shifted out -/
  | shifting
  deriving DecidableEq

structure Transmitter where
  xmtReady : Bool
  xmtIntrEnable : Bool
  xmtMaint : Bool
  xmtBreak : Bool
  xmtBuffer : BitVec 8
  /-- of `xmtintr_request` -/
  signalLevel : Bool
  /-- as read by the CPU -/
  xcsr : BitVec 16
  worker : XmtWorker
  /-- the characters written to XBUF -/
  written : List (BitVec 8)
  /-- the one in `xmt_buffer` -/
  bufferIndex : ℕ
  /-- the one that must be sent next -/
  owed : Option ℕ
  /-- those that INIT came in the way of -/
  dropped : List ℕ
  /-- those sent to the line -/
  sent : List (ℕ × BitVec 8)

namespace Transmitter

/-- The mutex `on_after_xmt_register_access_mutex`. -/
def locked (x : Transmitter) : Bool := x.worker == .sent || x.worker == .cleared

/-- The transmitter ready bit. -/
def ready (x : Transmitter) : Bool := x.xcsr &&& XCSR_XMIT_RDY != 0

/-- `get_xmt_intr_level` -/
def intrLevel (x : Transmitter) : Bool := x.xmtReady && x.xmtIntrEnable

/-- The value of XCSR in `set_xcsr_dati_value_and_INTR`. -/
def xcsrValue (x : Transmitter) : BitVec 16 :=
  flag x.xmtReady XCSR_XMIT_RDY ||| flag x.xmtIntrEnable XCSR_XMIT_INT_ENB |||
    flag x.xmtMaint XCSR_MAINT ||| flag x.xmtBreak XCSR_BREAK

/-- `set_xcsr_dati_value_and_INTR` -/
def setXcsr (lineInit : Bool) (x : Transmitter) : Transmitter :=
  let raising := !x.signalLevel && x.intrLevel
  { x with
    signalLevel := x.intrLevel
    xcsr := if raising && lineInit then x.xcsr else x.xcsrValue }

/-- `eval_xcsr_dato_value` -/
def evalXcsr (lineInit : Bool) (x : Transmitter) (val : BitVec 16) : Transmitter :=
  ({ x with
    xmtIntrEnable := val &&& XCSR_XMIT_INT_ENB != 0
    xmtMaint := val &&& XCSR_MAINT != 0
    xmtBreak := val &&& XCSR_BREAK != 0 } : Transmitter).setXcsr lineInit

/-- A write to XBUF is handled. The signal is lost when the worker does not wait. -/
def writeXbuf (lineInit : Bool) (x : Transmitter) (c : BitVec 8) : Transmitter :=
  ({ x with
    xmtBuffer := c
    xmtReady := false
    worker := if x.worker = .waiting then .woken else x.worker
    written := x.written ++ [c]
    bufferIndex := x.written.length
    owed := some x.written.length } : Transmitter).setXcsr lineInit

/-- While INIT is asserted a write to XBUF is ignored. -/
def ignoreXbuf (x : Transmitter) (c : BitVec 8) : Transmitter :=
  { x with written := x.written ++ [c], dropped := x.dropped ++ [x.written.length] }

/-- `rs232byte_xmt_send` -/
def send (x : Transmitter) : Transmitter :=
  { x with worker := .sent, owed := none, sent := x.sent ++ [(x.bufferIndex, x.xmtBuffer)] }

def clearReady (lineInit : Bool) (x : Transmitter) : Transmitter :=
  ({ x with xmtReady := false, worker := .cleared } : Transmitter).setXcsr lineInit

def finishShift (lineInit : Bool) (x : Transmitter) : Transmitter :=
  ({ x with xmtReady := true, worker := .waiting } : Transmitter).setXcsr lineInit

def busInit (x : Transmitter) : Transmitter :=
  { x with xcsr := XCSR_XMIT_RDY, owed := none, dropped := x.dropped ++ x.owed.toList }

/-- `reset` -/
def reset (x : Transmitter) : Transmitter :=
  { x.busInit with
    xmtReady := true
    xmtIntrEnable := false
    xmtMaint := false
    xmtBreak := false
    signalLevel := false }

end Transmitter

/-! ## The unit -/

/-- The cycle of the CPU that waits for its event to be handled. -/
inductive Cpu
  | idle
  | rcsrWritten (val : BitVec 16)
  | rbufRead
  | rbufWritten
  | xcsrWritten (val : BitVec 16)
  | xbufWritten (c : BitVec 8)

structure State where
  receiver : Receiver
  transmitter : Transmitter
  cpu : Cpu
  lineInit : Bool
  /-- the adapter has seen INIT asserted, `on_init_changed` is still to be called -/
  initRaised : Bool
  errorBitsEnable : Bool

/-- Reads of RCSR, XCSR and XBUF have no effect. -/
inductive Action
  | readRbuf
  | writeRbuf
  | writeRcsr (val : BitVec 16)
  | writeXcsr (val : BitVec 16)
  | writeXbuf (c : BitVec 8)
  /-- `on_after_register_access` -/
  | handle
  /-- INIT as seen by the PRU -/
  | busInit
  /-- INIT as seen by the adapter -/
  | initEvent (asserted : Bool)
  /-- `on_init_changed` -/
  | reset
  /-- `on_power_changed` -/
  | power
  | poll (byte : Rs232Byte)
  | store
  | showRbuf
  | finishReceive
  | xmtStart
  /-- `pthread_cond_wait` returns without a signal -/
  | spuriousWakeup
  | send
  | clearReady
  | startShift
  | finishShift
  | setErrorBits (enable : Bool)

namespace State

/-- After the reset at power on. -/
def initial : State where
  receiver :=
    { rcvActive := false, rcvDone := false, rcvIntrEnable := false, rcvOrErr := false
      rcvFrErr := false, rcvPErr := false, rcvRdrEnb := false, rcvBuffer := 0
      signalLevel := false, rcsr := 0, rbuf := 0, worker := .waiting, received := []
      shown := none, returned := [], flagged := [] }
  transmitter :=
    { xmtReady := true, xmtIntrEnable := false, xmtMaint := false, xmtBreak := false
      xmtBuffer := 0, signalLevel := false, xcsr := XCSR_XMIT_RDY, worker := .start
      written := [], bufferIndex := 0, owed := none, dropped := [], sent := [] }
  cpu := .idle
  lineInit := false
  initRaised := false
  errorBitsEnable := true

/-- The cycle ends. -/
def done (s : State) : State := { s with cpu := .idle }

def updateReceiver (s : State) (f : Receiver → Receiver) : State :=
  { s with receiver := f s.receiver }

def updateTransmitter (s : State) (f : Transmitter → Transmitter) : State :=
  { s with transmitter := f s.transmitter }

/-- `on_after_register_access`, when the mutex is free. -/
def handle (s : State) : Option State :=
  if s.initRaised then none
  else if s.lineInit then
    match s.cpu with
    | .idle => none
    | .xbufWritten c => some (s.updateTransmitter fun x => x.ignoreXbuf c).done
    | _ => some s.done
  else
    match s.cpu with
    | .idle => none
    | .rcsrWritten val =>
      if s.receiver.locked then none
      else some (s.updateReceiver fun r =>
        (r.evalRcsr s.lineInit val).setRcsr s.lineInit).done
    | .rbufRead | .rbufWritten =>
      if s.receiver.locked then none
      else some (s.updateReceiver fun r => r.clearDone s.lineInit).done
    | .xcsrWritten val =>
      if s.transmitter.locked then none
      else some (s.updateTransmitter fun x =>
        (x.evalXcsr s.lineInit val).setXcsr s.lineInit).done
    | .xbufWritten c =>
      if s.transmitter.locked then none
      else some (s.updateTransmitter fun x => x.writeXbuf s.lineInit c).done

/-- A new cycle of the CPU. -/
def access (s : State) (cpu : Cpu) : Option State :=
  match s.cpu with
  | .idle => some { s with cpu := cpu }
  | _ => none

def resetUnit (s : State) : State :=
  (s.updateReceiver Receiver.reset).updateTransmitter Transmitter.reset

end State

/-- The next step of a thread. `none` when the thread is not there or waits for a mutex. -/
def step (s : State) : Action → Option State
  | .readRbuf => (s.access .rbufRead).map fun s => s.updateReceiver Receiver.readRbuf
  | .writeRbuf => s.access .rbufWritten
  | .writeRcsr val => s.access (.rcsrWritten val)
  | .writeXcsr val => s.access (.xcsrWritten val)
  | .writeXbuf c => s.access (.xbufWritten c)
  | .handle => s.handle
  | .busInit =>
    some ((s.updateReceiver Receiver.busInit).updateTransmitter Transmitter.busInit)
  | .initEvent asserted =>
    if s.initRaised then none
    else some { s with lineInit := asserted, initRaised := asserted }
  | .reset => if s.initRaised then some { s.resetUnit with initRaised := false } else none
  | .power => if s.initRaised then none else some s.resetUnit
  | .poll byte =>
    match s.receiver.worker with
    | .waiting =>
      if s.lineInit then none else some (s.updateReceiver fun r => { r with worker := .polled byte })
    | _ => none
  | .store =>
    match s.receiver.worker with
    | .polled byte => some (s.updateReceiver fun r => r.store byte)
    | _ => none
  | .showRbuf =>
    match s.receiver.worker with
    | .stored byte => some (s.updateReceiver fun r => r.showRbuf s.errorBitsEnable byte)
    | _ => none
  | .finishReceive =>
    match s.receiver.worker with
    | .shown => some (s.updateReceiver fun r => { r.setRcsr s.lineInit with worker := .waiting })
    | _ => none
  | .xmtStart =>
    if s.transmitter.worker = .start then
      some (s.updateTransmitter fun x => { x with worker := .waiting })
    else none
  | .spuriousWakeup =>
    if s.transmitter.worker = .waiting then
      some (s.updateTransmitter fun x => { x with worker := .woken })
    else none
  | .send =>
    if s.transmitter.worker = .woken then some (s.updateTransmitter Transmitter.send) else none
  | .clearReady =>
    if s.transmitter.worker = .sent then
      some (s.updateTransmitter fun x => x.clearReady s.lineInit)
    else none
  | .startShift =>
    if s.transmitter.worker = .cleared then
      let t := s.updateTransmitter fun x => { x with worker := .shifting }
      -- Loop back: a character is coming in.
      if s.transmitter.xmtMaint then
        if s.receiver.locked then none
        else some (t.updateReceiver fun r => ({ r with rcvActive := true } : Receiver).setRcsr s.lineInit)
      else some t
    else none
  | .finishShift =>
    if s.transmitter.worker = .shifting then
      some (s.updateTransmitter fun x => x.finishShift s.lineInit)
    else none
  | .setErrorBits enable => some { s with errorBitsEnable := enable }

end QUniBone.Dl11
