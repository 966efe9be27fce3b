import Mathlib.Data.BitVec

/-!
# Initialization, polling and reset of the MSCP port

`StateTransition`, `worker`, `on_after_register_access` and `PortError` in `uda.cpp`, `Poll`,
`Reset` and `InitPolling` in `mscp_server.cpp`. Three threads: the one of the bus adapter handles
the accesses to IP and SA and the bus INIT, the worker initializes the port, the polling thread
executes the commands. The worker is told by `_initStep` and `_next_step`, the polling thread by
`_pollState` and a condition variable on which the worker waits too.

What is done under a mutex is one step, and so is each access outside.

* `Worker`, `Poller`, `Bus`: how far each of the threads is.
* `State`, `Action`, `step`: the port and its steps.
-/

namespace QUniBone.MscpServer

/-- `InitializationStep` -/
inductive InitStep
  | uninitialized
  | step1
  | step2
  | step3
  | step4
  | complete
  deriving DecidableEq

/-- `PollingState` -/
inductive PollState
  | wait
  | run
  | initRestart
  | initRun
  deriving DecidableEq

def STEP1 : BitVec 16 := 0x0800
def STEP2 : BitVec 16 := 0x1000
def STEP3 : BitVec 16 := 0x2000
def STEP4 : BitVec 16 := 0x4000
def STEP1_22_BIT : BitVec 16 := 0x200
def UDA50_ID : BitVec 16 := 0x0063
def RQDX3_ID : BitVec 16 := 0x0133
def PORT_ERROR : BitVec 16 := 0x8000

/-- The worker of the port. -/
inductive Worker
  /-- waiting for `_next_step` -/
  | idle
  /-- `_next_step` is cleared, `_initStep` not yet read -/
  | taken
  /-- in a step that only changes SA -/
  | stepping (step : InitStep)
  /-- uninitialized, before SA is cleared -/
  | clearing
  /-- before `Reset()` of the server -/
  | resetting
  /-- in its `pthread_cond_wait` -/
  | resetWait
  | resetWoken
  /-- the server is reset, the fields of the port are not -/
  | resetReturned
  /-- before the transition to step 1 -/
  | transition
  deriving DecidableEq

/-- The branch for the value of `_initStep`. -/
def Worker.branch : InitStep → Worker
  | .uninitialized => .clearing
  | .complete => .idle
  | next => .stepping next

/-- The worker is on its way to the end of a `Reset()`. -/
def Worker.resets : Worker → Bool
  | .clearing | .resetting | .resetWait | .resetWoken | .resetReturned => true
  | _ => false

/-- `Reset()` of the server has returned. -/
def Worker.hasReset : Worker → Bool
  | .resetReturned | .transition => true
  | _ => false

/-- The polling thread. -/
inductive Poller
  /-- before it looks at `_pollState` -/
  | top
  /-- in `pthread_cond_wait` -/
  | waiting
  | woken
  /-- at the head of the loop over the command ring -/
  | draining
  | fetching
  /-- the code of a port error is in SA -/
  | erring
  /-- at the head of the loop over the commands -/
  | executing
  /-- a command is executed, its response not yet posted -/
  | responding
  /-- before it goes back to sleep -/
  | finishing
  deriving DecidableEq

/-- Not in the loops over ring and commands. -/
def Poller.idle : Poller → Bool
  | .top | .waiting | .woken => true
  | _ => false

/-- What the bus adapter has decided and not yet done. -/
inductive Bus
  | idle
  /-- IP is written -/
  | ipWriting
  /-- IP is read, initialization was complete -/
  | polling
  /-- SA is written, the next step is known -/
  | saWriting (step : InitStep)
  /-- the last step is done, SA not yet cleared -/
  | completing
  deriving DecidableEq

structure State where
  twentyTwoBitDma : Bool
  isRqdx3 : Bool
  initStep : InitStep
  nextStep : Bool
  step1Value : BitVec 16
  sa : BitVec 16
  pollState : PollState
  worker : Worker
  poller : Poller
  bus : Bus
  /-- commands in the ring -/
  ring : ℕ
  /-- commands in the queue of `Poll` -/
  messages : ℕ
  /-- a reset is requested and not yet complete -/
  pending : Bool
  /-- since the last reset the host has not completed the initialization -/
  afterReset : Bool
  /-- those commands of the ring after which the host has read IP -/
  announced : ℕ
  /-- what a port error has put into SA, until the host starts over -/
  errorCode : Option (BitVec 16)

namespace State

/-- `StateTransition` -/
def transition (s : State) (next : InitStep) : State :=
  { s with initStep := next, nextStep := true }

/-- A transition that asks for a reset. -/
def request (s : State) : State := { s.transition .uninitialized with pending := true }

/-- What the worker puts into SA. -/
def stepValue (s : State) : InitStep → BitVec 16
  | .step1 => STEP1 ||| (if s.twentyTwoBitDma then STEP1_22_BIT else 0)
  | .step2 => STEP2 ||| (s.step1Value >>> 8 &&& 0xff)
  | .step3 => STEP3 ||| (s.step1Value &&& 0xff)
  | .step4 => STEP4 ||| (if s.isRqdx3 then RQDX3_ID else UDA50_ID)
  | .uninitialized | .complete => s.sa

/-- `pthread_cond_signal(&polling_cond)`. If both threads wait, one of them is woken. -/
def signal (s : State) (pollerFirst : Bool) : State :=
  if s.poller = .waiting ∧ (pollerFirst = true ∨ s.worker ≠ .resetWait) then
    { s with poller := .woken }
  else if s.worker = .resetWait then { s with worker := .resetWoken }
  else s

end State

inductive Action
  | init
  | ipWrite
  | ipTransition
  | ipRead
  | initPolling (pollerFirst : Bool)
  | saWrite (value : BitVec 16)
  | saTransition
  | saZero
  /-- the host puts a command into the ring -/
  | post
  | workerTake
  | workerSwitch
  | clearSA
  | resetLock
  /-- a wakeup without a signal -/
  | resetWake
  | resetCheck
  | resetFields
  | step1Transition
  | stepSA
  | pollCheck
  /-- a wakeup without a signal -/
  | pollWake
  | drain
  | fetch
  /-- the memory does not answer, or the message is not valid -/
  | fetchError (error : BitVec 16)
  | portError
  | execute
  | respond
  | finish

/-- The steps of the worker and the polling thread that need nothing from outside. -/
def Action.ofThreads : Action → Bool
  | .workerTake | .workerSwitch | .clearSA | .resetLock | .resetCheck | .resetFields
  | .step1Transition | .stepSA | .pollCheck | .drain | .fetch | .portError | .execute | .respond
  | .finish => true
  | _ => false

def step (s : State) : Action → Option State
  | .init =>
    if s.bus = .idle then some { s.request with sa := 0, errorCode := none } else none
  | .ipWrite =>
    if s.bus = .idle then some { s with sa := 0, errorCode := none, bus := .ipWriting } else none
  | .ipTransition =>
    if s.bus = .ipWriting then some { s.request with bus := .idle } else none
  | .ipRead =>
    if s.bus = .idle then
      some (if s.initStep = .complete then { s with bus := .polling } else s)
    else none
  | .initPolling pollerFirst =>
    if s.bus = .polling then
      some ({ s with bus := .idle, pollState := .initRun, announced := s.ring }.signal pollerFirst)
    else none
  | .saWrite value =>
    if s.bus = .idle then
      match s.initStep with
      | .uninitialized | .step1 => some { s with step1Value := value, bus := .saWriting .step2 }
      | .step2 => some { s with bus := .saWriting .step3 }
      | .step3 => some { s with bus := .saWriting .step4 }
      | .step4 =>
        some (if value &&& 1 = 0 then s else { s with bus := .saWriting .complete })
      | .complete => some s
    else none
  | .saTransition =>
    match s.bus with
    | .saWriting .complete =>
      some { s.transition .complete with bus := .completing, afterReset := false }
    | .saWriting next => some { s.transition next with bus := .idle }
    | _ => none
  | .saZero => if s.bus = .completing then some { s with sa := 0, bus := .idle } else none
  | .post => if s.initStep = .complete then some { s with ring := s.ring + 1 } else none
  | .workerTake =>
    if s.worker = .idle ∧ s.nextStep = true then
      some { s with nextStep := false, worker := .taken }
    else none
  | .workerSwitch =>
    if s.worker = .taken then some { s with worker := .branch s.initStep } else none
  | .clearSA =>
    if s.worker = .clearing then some { s with sa := 0, worker := .resetting } else none
  | .resetLock =>
    if s.worker = .resetting then
      some (if s.pollState = .wait then { s with worker := .resetReturned }
        else { s with pollState := .initRestart, worker := .resetWait })
    else none
  | .resetWake => if s.worker = .resetWait then some { s with worker := .resetWoken } else none
  | .resetCheck =>
    if s.worker = .resetWoken then
      some { s with worker := if s.pollState = .wait then .resetReturned else .resetWait }
    else none
  | .resetFields =>
    if s.worker = .resetReturned then
      some { s with
        worker := .transition
        ring := 0
        pending := false
        afterReset := true
        announced := 0 }
    else none
  | .step1Transition =>
    if s.worker = .transition then some { s.transition .step1 with worker := .idle } else none
  | .stepSA =>
    match s.worker with
    | .stepping next => some { s with sa := s.stepValue next, worker := .idle }
    | _ => none
  | .pollCheck =>
    if s.poller = .top ∨ s.poller = .woken then
      some (match s.pollState with
        | .wait => { s with poller := .waiting }
        | .initRun => { s with pollState := .run, poller := .draining }
        | _ => { s with poller := .draining })
    else none
  | .pollWake => if s.poller = .waiting then some { s with poller := .woken } else none
  | .drain =>
    if s.poller = .draining then
      some { s with poller := if s.pollState = .initRestart then .executing else .fetching }
    else none
  | .fetch =>
    if s.poller = .fetching then
      some (if s.ring = 0 then { s with poller := .executing }
        else { s with
          poller := .draining
          ring := s.ring - 1
          announced := s.announced - 1
          messages := s.messages + 1 })
    else none
  | .fetchError error =>
    if s.poller = .fetching then
      some { s with
        poller := .erring
        sa := PORT_ERROR ||| error
        errorCode := some (PORT_ERROR ||| error) }
    else none
  | .portError =>
    if s.poller = .erring then some { s.request with poller := .executing, messages := 0 }
    else none
  | .execute =>
    if s.poller = .executing then
      some { s with
        poller :=
          if s.messages = 0 ∨ s.pollState = .initRestart then .finishing else .responding }
    else none
  | .respond =>
    if s.poller = .responding then
      some { s with poller := .executing, messages := s.messages - 1 }
    else none
  | .finish =>
    if s.poller = .finishing then
      let s := { s with poller := .top, messages := 0 }
      some (match s.pollState with
        | .initRestart => { s with pollState := .wait }.signal true
        | .initRun => { s with pollState := .run }
        | _ => { s with pollState := .wait })
    else none

end QUniBone.MscpServer
