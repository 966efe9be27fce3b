import QUniBone.Mscp.Port
import QUniBone.Mscp.Rings

/-!
# The threads of the UDA50

The polling thread, the worker and the thread of the bus adapter, with the programs of their
memory accesses. The host fills memory as it likes and accesses IP and SA at any time. Each
access of the host is one step, but for a read of IP: polling is started some time after the
initialization was seen to be complete.

* `Poller`, `Worker`: how far the threads are.
* `State`, `Action`, `step`: the three threads. `taken` and `responses` are the reference numbers
  of the commands and the responses, newest first.
-/

namespace QUniBone.UDA50

open Disk MscpServer

/-- The polling thread. The queue holds the commands that are not yet executed. -/
inductive Poller
  | waiting
  | draining (queue : List Message)
  | fetching (queue : List Message) (p : Prog Next)
  | executing (queue : List Message)
  | answering (queue : List Message) (m : Message) (p : Prog Unit)
  | finishing
  | dead

inductive Worker
  | idle
  /-- `_next_step` is cleared, `_initStep` not yet read -/
  | taken
  /-- a step that only changes SA -/
  | stepping
  | clearing
  /-- in the `pthread_cond_wait` of `Reset()` -/
  | resetWait
  /-- the server is reset, the fields of the port are not -/
  | resetReturned
  /-- before the transition to step 1 -/
  | transition
  | step4 (p : Prog Unit)
  | dead

structure State where
  port : Port
  poller : Poller
  worker : Worker
  /-- IP was read, and initialization was complete -/
  polling : Bool
  /-- the calls of `DMA()`, newest first -/
  calls : List Access
  crash : Option Crash
  taken : List (BitVec 32)
  responses : List (BitVec 32)
  /-- commands that were dropped, with an error of the port or a reset -/
  dropped : List (BitVec 32)

namespace State

/-- `StateTransition` -/
def stateTransition (s : State) (next : InitStep) : State :=
  { s with port := { s.port with initStep := next, nextStep := true } }

def call (s : State) (a : Access) : State :=
  { s with
    calls := a :: s.calls
    responses :=
      match a.purpose with
      | .response referenceNumber => referenceNumber :: s.responses
      | _ => s.responses }

def drop (s : State) (queue : List Message) : State :=
  { s with dropped := queue.map Message.referenceNumber ++ s.dropped }

end State

inductive Action
  | writeIP
  | readIP
  | initPolling
  | writeSA (value : BitVec 16)
  | takeStep
  | branch
  | stepDone
  | reset
  | resetDone
  | clearFields
  | transition
  /-- the program of step 4 goes on, up to a call or the end -/
  | workerRun
  | workerCall (answer : Option (List BusWord))
  | wake
  | drain
  /-- the program of the polling thread goes on -/
  | run
  | pollerCall (answer : Option (List BusWord))
  | next
  | finish

/-- `on_after_register_access` for SA -/
def writeSA (p : Port) (value : BitVec 16) : Port :=
  match p.initStep with
  | .uninitialized | .step1 =>
    { p with
      responseRingLength := Mscp.responseRingLength value
      commandRingLength := Mscp.commandRingLength value
      initStep := .step2
      nextStep := true }
  | .step2 =>
    { p with
      ringBase := (value &&& 0xfffe).toNat
      purgeInterruptEnable := value.getLsbD 0
      initStep := .step3
      nextStep := true }
  | .step3 =>
    { p with
      ringBase := p.ringBase ||| (value &&& 0x7fff).toNat <<< 16
      initStep := .step4
      nextStep := true }
  | .step4 =>
    if value.getLsbD 0 then { p with initStep := .complete, nextStep := true, portError := false }
    else p
  | .complete => p

/-- `Reset()`: the drives are released, and the fields are cleared. -/
def Port.clear (p : Port) : Port :=
  { p with
    ringBase := 0
    commandRingLength := 0
    responseRingLength := 0
    commandRingPointer := 0
    responseRingPointer := 0
    purgeInterruptEnable := false
    drives := fun unit => { p.drives unit with isOnline := false } }

/-- The worker reads `_initStep`. -/
def branch (space : ℕ) (s : State) : State :=
  match s.port.initStep with
  | .uninitialized => { s with worker := .clearing }
  | .step4 => { s with worker := .step4 (clearCommArea space) }
  | .complete => { s with worker := .idle }
  | _ => { s with worker := .stepping }

/-- `Reset()` of the server: a polling thread that runs is waited for. -/
def reset (s : State) : State :=
  if s.port.pollState = .wait then
    { s with port := { s.port with portError := false }, worker := .resetReturned }
  else
    { s with
      port := { s.port with portError := false, pollState := .initRestart }
      worker := .resetWait }

/-- A program goes on with a read or a write. -/
def runProg {α : Type} (s : State) (p : Prog α) (set : Prog α → State → State)
    (dead : State → State) : Option State :=
  match p with
  | .read k => some (set (k s.port) s)
  | .write f k => some (set k { s with port := f s.port })
  | .fail e => some (dead { s with crash := some e })
  | _ => none

/-- A call is answered. -/
def callProg {α : Type} (s : State) (p : Prog α) (answer : Option (List BusWord))
    (set : Prog α → State → State) : Option State :=
  match p with
  | .call a k => some (set (k answer) (s.call a))
  | _ => none

/-- The polling thread has read a message, or it cannot. -/
def fetched (s : State) (queue : List Message) : Next → State
  | .error => { s.drop queue with poller := .executing [] }
  | .empty => { s with poller := .executing queue }
  | .message m =>
    { s with
      poller := .draining (queue ++ [m])
      taken := m.referenceNumber :: s.taken }

def runPoller (s : State) : Option State :=
  match s.poller with
  | .fetching queue (.done r) => some (fetched s queue r)
  | .fetching queue p =>
    runProg s p (fun q t => { t with poller := .fetching queue q })
      fun t => { t with poller := .dead }
  | .answering queue _ (.done _) => some { s with poller := .executing queue }
  | .answering queue m p =>
    runProg s p (fun q t => { t with poller := .answering queue m q })
      fun t => { t with poller := .dead }
  | _ => none

def runWorker (s : State) : Option State :=
  match s.worker with
  | .step4 (.done _) => some { s with worker := .idle }
  | .step4 p =>
    runProg s p (fun q t => { t with worker := .step4 q }) fun t => { t with worker := .dead }
  | _ => none

/-- The head of the loop over the commands. -/
def next (space : ℕ) (s : State) (queue : List Message) : State :=
  match queue with
  | [] => { s with poller := .finishing }
  | m :: rest =>
    if s.port.pollState = .initRestart then { s.drop queue with poller := .finishing }
    else { s with poller := .answering rest m (serve space m) }

/-- Before the polling thread goes back to sleep. -/
def finish (s : State) : State :=
  let pollState := if s.port.pollState = .initRun then PollState.run else .wait
  { s with port := { s.port with pollState := pollState }, poller := .waiting }

def step (space : ℕ) (s : State) : Action → Option State
  | .writeIP =>
    if s.polling then none
    else
      some ({ s with port := { s.port with portError := false } }.stateTransition .uninitialized)
  | .readIP =>
    if s.polling then none
    else some (if s.port.initStep = .complete then { s with polling := true } else s)
  | .initPolling =>
    if s.polling then
      some { s with polling := false, port := { s.port with pollState := .initRun } }
    else none
  | .writeSA value =>
    if s.polling then none else some { s with port := writeSA s.port value }
  | .takeStep =>
    match s.worker with
    | .idle =>
      if s.port.nextStep then
        some { s with port := { s.port with nextStep := false }, worker := .taken }
      else none
    | _ => none
  | .branch =>
    match s.worker with
    | .taken => some (branch space s)
    | _ => none
  | .stepDone =>
    match s.worker with
    | .stepping => some { s with worker := .idle }
    | _ => none
  | .reset =>
    match s.worker with
    | .clearing => some (reset s)
    | _ => none
  | .resetDone =>
    match s.worker with
    | .resetWait =>
      if s.port.pollState = .wait then some { s with worker := .resetReturned } else none
    | _ => none
  | .clearFields =>
    match s.worker with
    | .resetReturned => some { s with port := s.port.clear, worker := .transition }
    | _ => none
  | .transition =>
    match s.worker with
    | .transition => some { s.stateTransition .step1 with worker := .idle }
    | _ => none
  | .workerRun => runWorker s
  | .workerCall answer =>
    match s.worker with
    | .step4 p => callProg s p answer fun q t => { t with worker := .step4 q }
    | _ => none
  | .wake =>
    match s.poller with
    | .waiting =>
      if s.port.pollState = .wait then none
      else
        let pollState := if s.port.pollState = .initRun then .run else s.port.pollState
        some { s with port := { s.port with pollState := pollState }, poller := .draining [] }
    | _ => none
  | .drain =>
    match s.poller with
    | .draining queue =>
      some { s with
        poller := if s.port.pollState = .initRestart then .executing queue
          else .fetching queue (getNextCommand space) }
    | _ => none
  | .run => runPoller s
  | .pollerCall answer =>
    match s.poller with
    | .fetching queue p =>
      callProg s p answer fun q t => { t with poller := .fetching queue q }
    | .answering queue m p =>
      callProg s p answer fun q t => { t with poller := .answering queue m q }
    | _ => none
  | .next =>
    match s.poller with
    | .executing queue => some (next space s queue)
    | _ => none
  | .finish =>
    match s.poller with
    | .finishing => some (finish s)
    | _ => none

/-- After the power-up, with images in the drives. -/
def Port.initial (drives : ℕ → Drive) : Port where
  initStep := .uninitialized
  nextStep := false
  pollState := .wait
  ringBase := 0
  commandRingLength := 0
  responseRingLength := 0
  commandRingPointer := 0
  responseRingPointer := 0
  purgeInterruptEnable := false
  portError := false
  errors := 0
  drives := drives

def State.initial (drives : ℕ → Drive) : State where
  port := .initial drives
  poller := .waiting
  worker := .idle
  polling := false
  calls := []
  crash := none
  taken := []
  responses := []
  dropped := []

end QUniBone.UDA50
