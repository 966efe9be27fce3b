import Mathlib.Data.BitVec
import Mathlib.Logic.Function.Basic

/-!
# The micro-CPU of the RX01/RX02

`rx0102ucpu.cpp`. A function is a program: a vector of steps and a program counter. The worker
executes it. It holds `on_worker_mutex` all the time, except while it waits on
`on_worker_cond`, for the start of a program or for the data of a transfer step. The controllers
call `init()`, `go()` and the handlers of RXDB from several threads. Each of them does part of
its work before it locks the mutex.

* `Step`, `FunctionCode`, `goProgram`, `initProgram`: the programs.
* `State`, `Action`, `step`: the unit and its steps. An assertion that fails is `none`.

The box is powered. Whether a medium can be read or written is up to the action.
-/

namespace QUniBone.RX0102uCPU

/-! ## Programs -/

/-- `step_e`, without `step_none` and the unused `step_error` -/
inductive Step
  | transferBufferWrite
  | transferBufferRead
  | seek
  | headSettle
  | sectorWrite
  | sectorRead
  | formatTrack
  | seekNext
  | initDone
  | doneReadErrorCode
  | done
  deriving DecidableEq

/-- The steps that wait for accesses to RXDB. -/
def Step.isTransfer : Step → Bool
  | .transferBufferWrite | .transferBufferRead => true
  | _ => false

inductive FunctionCode
  | fillBuffer
  | emptyBuffer
  | writeSector
  | readSector
  | setMediaDensity
  | readStatus
  | writeSectorWithDeletedData
  | readErrorCode
  deriving DecidableEq

/-- What `transfer_buffer` points to. -/
inductive TransferBuffer
  | sectorBuffer
  | extendedStatus
  deriving DecidableEq

/-- `sector_count_const` -/
def sectorCount : ℕ := 26

/-- `cylinder_count_const` -/
def cylinderCount : ℕ := 77

def getTransferBuffer (isRX02 : Bool) : FunctionCode → Option TransferBuffer
  | .fillBuffer | .emptyBuffer => some .sectorBuffer
  | .readErrorCode => if isRX02 then some .extendedStatus else none
  | _ => none

/-- `get_transfer_byte_count`. On the RX02, `go()` takes the count of a buffer transfer from the
word count register. -/
def getTransferByteCount (isRX02 : Bool) (rx2wc : ℕ) : FunctionCode → ℕ
  | .fillBuffer | .emptyBuffer => if isRX02 then 2 * rx2wc else 128
  | .readSector | .writeSector | .writeSectorWithDeletedData => 2
  | .setMediaDensity => if isRX02 then 1 else 0
  | .readErrorCode => if isRX02 then 8 else 0
  | .readStatus => 0

/-- The steps that `init()` pushes. -/
def initProgram : List Step := [.seek, .sectorRead, .initDone]

/-- The steps that `go()` pushes. -/
def goProgram (isRX02 imageIsOpen : Bool) : FunctionCode → List Step
  | .fillBuffer => [.transferBufferWrite, .done]
  | .emptyBuffer => [.transferBufferRead, .done]
  | .readSector => [.transferBufferWrite, .seek, .headSettle, .sectorRead, .done]
  | .writeSector | .writeSectorWithDeletedData =>
    [.transferBufferWrite, .seek, .headSettle, .sectorWrite, .done]
  | .setMediaDensity =>
    if !isRX02 then []
    else if imageIsOpen then
      [.transferBufferWrite, .seek, .formatTrack] ++
        (List.replicate (cylinderCount - 1) [.seekNext, .formatTrack]).flatten ++ [.done]
    else [.done]
  | .readStatus => [.done]
  | .readErrorCode =>
    if isRX02 then [.transferBufferRead, .doneReadErrorCode] else [.doneReadErrorCode]

/-! ## State -/

/-- Where the worker is. -/
inductive Worker
  /-- before it locks the mutex -/
  | starting
  /-- at the head of the loop -/
  | top
  /-- in a transfer step that is not yet waiting -/
  | transferring
  | transferWait
  /-- signalled, without the mutex -/
  | transferWoken
  /-- before `step_next()` -/
  | executed
  | startWait
  | startWoken
  /-- before the test of `signal_error` -/
  | checking
  deriving DecidableEq

namespace Worker

def holdsMutex : Worker → Bool
  | .top | .transferring | .executed | .checking => true
  | _ => false

/-- In a transfer step whose data are not complete. -/
def awaitsData : Worker → Bool
  | .transferring | .transferWait => true
  | _ => false

/-- Between the start of a step and `step_next()`. -/
def inStep : Worker → Bool
  | .transferring | .transferWait | .transferWoken | .executed => true
  | _ => false

/-- `pthread_cond_signal(&on_worker_cond)` -/
def signalled : Worker → Worker
  | .transferWait => .transferWoken
  | .startWait => .startWoken
  | w => w

end Worker

/-- How far a thread of the controller is in a call. -/
inductive Host
  | idle
  /-- `rxdb_after_read()` or `rxdb_after_write()`, before it locks the mutex -/
  | signalling
  | initEntered
  | goEntered
  deriving DecidableEq

/-- The unit with the threads `σ` of the controllers. -/
structure State (σ : Type*) where
  isRX02 : Bool
  programSteps : List Step
  programCounter : ℕ
  programFunctionCode : FunctionCode
  transferBuffer : Option TransferBuffer
  transferByteCount : ℕ
  transferByteIdx : ℕ
  /-- track address -/
  rxta : ℕ
  signalDone : Bool
  signalError : Bool
  signalTransferRequest : Bool
  worker : Worker
  host : σ → Host
  /-- the program that was installed last -/
  installed : List Step
  /-- the steps executed since then -/
  executed : List Step
  /-- how often it was stopped on an error -/
  aborts : ℕ
  /-- an error was signalled since then -/
  ownError : Bool
  /-- all data of the current transfer step are there -/
  transferred : Bool
  /-- `go()` replaced a program before its end -/
  cutShort : Bool

namespace State

variable {σ : Type*}

/-- `step_current()` -/
def stepCurrent (s : State σ) : Option Step := s.programSteps[s.programCounter]?

/-- `program_complete()` -/
def programComplete (s : State σ) : Bool := s.stepCurrent.isNone

/-- An access to RXDB is taken as a transfer. -/
def accepts (s : State σ) : Bool :=
  !s.programComplete && decide (s.transferByteIdx < s.transferByteCount)

/-- The installed program has run to its end. -/
def ended (s : State σ) : Bool := decide (s.aborts ≠ 0) || decide (s.executed = s.installed)

/-- A program replaces the current one, and the worker is signalled. -/
def install (s : State σ) (program : List Step) (error : Bool) : State σ :=
  { s with
    programSteps := program
    programCounter := 0
    worker := s.worker.signalled
    installed := program
    executed := []
    aborts := 0
    ownError := error }

/-- The steps that end a function. -/
def stepDone (s : State σ) : State σ :=
  { s with signalDone := true, signalTransferRequest := false }

/-- A step that accesses the medium. -/
def media (s : State σ) (error : Bool) : State σ :=
  { s with signalError := error, ownError := s.ownError || error }

/-- `step_execute()` up to the wait for data, for the step that is executed. -/
def stepExecute (s : State σ) (ok : Bool) : Step → Option (State σ)
  | .transferBufferWrite =>
    some { s with
      transferByteIdx := 0
      signalTransferRequest := true
      worker := .transferring
      transferred := false }
  | .transferBufferRead =>
    if s.programFunctionCode = .emptyBuffer ∨ s.programFunctionCode = .readErrorCode then
      some { s with
        transferByteIdx := 0
        signalTransferRequest := true
        worker := .transferring
        transferred := false }
    else none
  | .seek => if s.rxta < cylinderCount then some { s with worker := .executed } else none
  | .headSettle | .seekNext => some { s with worker := .executed }
  | .sectorWrite | .sectorRead => some { s.media !ok with worker := .executed }
  | .formatTrack => some { s.media (s.signalError || !ok) with worker := .executed }
  | .initDone | .doneReadErrorCode | .done => some { s.stepDone with worker := .executed }

def setHost [DecidableEq σ] (s : State σ) (o : σ) (h : Host) : State σ :=
  { s with host := Function.update s.host o h }

/-- The last byte of a transfer. -/
def complete [DecidableEq σ] (s : State σ) (o : σ) : State σ :=
  { s with signalTransferRequest := false, transferred := true }.setHost o .signalling

/-- A parameter that is out of range. -/
def refuse (s : State σ) (error : Bool) : State σ :=
  { s with signalError := s.signalError || error, ownError := s.ownError || error }

/-- `rxdb_after_read()`, up to the lock -/
def rxdbAfterRead [DecidableEq σ] (s : State σ) (o : σ) : Option (State σ) :=
  if !s.accepts then some s
  else if s.programFunctionCode = .emptyBuffer ∨ s.programFunctionCode = .readErrorCode then
    if s.transferByteIdx + 1 < s.transferByteCount then
      if s.transferBuffer = none then none
      else some { s with transferByteIdx := s.transferByteIdx + 1 }
    else some ({ s with transferByteIdx := s.transferByteIdx + 1 }.complete o)
  else some s

/-- `rxdb_after_write()`, up to the lock -/
def rxdbAfterWrite [DecidableEq σ] (s : State σ) (o : σ) (w : BitVec 16) : Option (State σ) :=
  if !s.accepts then some s
  else match s.programFunctionCode with
    | .fillBuffer =>
      if s.transferBuffer = some .sectorBuffer then
        let s := { s with transferByteIdx := s.transferByteIdx + 1 }
        some (if s.transferByteCount ≤ s.transferByteIdx then s.complete o else s)
      else none
    | .readSector | .writeSector | .writeSectorWithDeletedData =>
      let next := { s with transferByteIdx := s.transferByteIdx + 1 }
      match s.transferByteIdx with
      | 0 =>
        let rxsa := (w &&& 0o37).toNat
        some (next.refuse (rxsa < 1 || rxsa > sectorCount))
      | 1 =>
        let rxta := (w &&& 0o177).toNat
        some (({ next with rxta }.refuse (rxta ≥ cylinderCount)).complete o)
      | _ => some next
    | .setMediaDensity =>
      if s.transferByteIdx = 0 then some ((s.refuse (w != 0x49)).complete o) else some s
    | _ => some s

/-- The part of `go()` under the mutex. On the RX01 there is nothing to format: the caller
executes `step_done` itself. -/
def go (s : State σ) (rx2wc : ℕ) (imageIsOpen : Bool) : State σ :=
  let code := s.programFunctionCode
  let formats : Bool := code = .setMediaDensity
  let error := formats && s.isRX02 && !imageIsOpen
  let s := { s with
    signalDone := formats && !s.isRX02
    signalError := error
    signalTransferRequest := false
    transferByteCount := getTransferByteCount s.isRX02 rx2wc code
    transferBuffer := getTransferBuffer s.isRX02 code
    rxta := if formats && s.isRX02 && imageIsOpen then 0 else s.rxta
    cutShort := s.cutShort || !s.ended }
  s.install (goProgram s.isRX02 imageIsOpen code) error

end State

/-! ## Steps -/

inductive Action (σ : Type*)
  | workerStart
  /-- no program: wait for a start signal -/
  | waitStart
  /-- the step is executed, the medium is accessed with this success -/
  | execute (ok : Bool)
  | waitTransfer
  /-- `pthread_cond_wait` returns without a signal -/
  | wake
  /-- it gets the mutex back -/
  | relock
  | next
  | check
  | read (o : σ)
  | write (o : σ) (w : BitVec 16)
  | signal (o : σ)
  | initEnter (o : σ)
  | initLock (o : σ)
  | goEnter (o : σ) (code : FunctionCode)
  | goLock (o : σ) (rx2wc : ℕ) (imageIsOpen : Bool)

variable {σ : Type*} [DecidableEq σ]

def step (s : State σ) : Action σ → Option (State σ)
  | .workerStart => if s.worker = .starting then some { s with worker := .top } else none
  | .waitStart =>
    if s.worker = .top ∧ s.programComplete = true then some { s with worker := .startWait }
    else none
  | .execute ok =>
    if s.worker = .top then
      s.stepCurrent.bind fun cur => { s with executed := s.executed ++ [cur] }.stepExecute ok cur
    else none
  | .waitTransfer =>
    if s.worker = .transferring then some { s with worker := .transferWait } else none
  | .wake =>
    if s.worker = .transferWait ∨ s.worker = .startWait then
      some { s with worker := s.worker.signalled }
    else none
  | .relock =>
    match s.worker with
    | .transferWoken => some { s with worker := .executed }
    | .startWoken => some { s with worker := .checking }
    | _ => none
  | .next =>
    if s.worker = .executed then
      some { s with
        worker := .checking
        programCounter :=
          if s.programComplete then s.programCounter else s.programCounter + 1 }
    else none
  | .check =>
    if s.worker = .checking then
      if s.signalError then
        -- stop execution on error
        some { s.stepDone with
          worker := .top
          programSteps := []
          programCounter := 0
          aborts := s.aborts + 1 }
      else some { s with worker := .top }
    else none
  | .read o => if s.host o = .idle then s.rxdbAfterRead o else none
  | .write o w => if s.host o = .idle then s.rxdbAfterWrite o w else none
  | .signal o =>
    if s.host o = .signalling ∧ s.worker.holdsMutex = false then
      some ({ s with worker := s.worker.signalled }.setHost o .idle)
    else none
  | .initEnter o =>
    if s.host o = .idle then
      some ({ s with
        signalDone := false
        signalError := false
        signalTransferRequest := false
        rxta := 1 }.setHost o .initEntered)
    else none
  | .initLock o =>
    if s.host o = .initEntered ∧ s.worker.holdsMutex = false then
      some ((s.install initProgram false).setHost o .idle)
    else none
  | .goEnter o code =>
    if s.host o = .idle then
      some ({ s with programFunctionCode := code }.setHost o .goEntered)
    else none
  | .goLock o rx2wc imageIsOpen =>
    if s.host o = .goEntered ∧ s.worker.holdsMutex = false then
      some ((s.go rx2wc imageIsOpen).setHost o .idle)
    else none

end QUniBone.RX0102uCPU
