import QUniBone.Lib.RingWindow
import Mathlib.Data.BitVec
import Mathlib.Logic.Function.Basic

/-!
# Command and response ring of the MSCP port

`GetNextCommand`, `PostResponse` and `Interrupt` in `uda.cpp`, called by the polling thread of
`mscp_server.cpp`. A ring is an array of descriptors in host memory. The ownership bit says whose
turn it is. In both rings the host hands descriptors over to the port, and the port releases them
in the same order: free slots for responses in the one, commands in the other.

Each access to a descriptor is a step. The messages are well formed, all of the memory exists,
and the port is not reset meanwhile.

* `Ring`: the descriptors, the two pointers, and how many descriptors were passed on.
* `Port`, `Intr`, `State`, `Action`, `step`: the polling thread, the adapter and the host.
-/

namespace QUniBone.Mscp

/-- The bits of `Descriptor` that are not the address of the envelope. -/
structure Descriptor where
  ownership : Bool
  flag : Bool
  deriving DecidableEq

/-- `_responseRingLength`, from the value written to SA in step 1 -/
def responseRingLength (value : BitVec 16) : ℕ := 1 <<< ((value &&& 0x700) >>> 8).toNat

/-- `_commandRingLength` -/
def commandRingLength (value : BitVec 16) : ℕ := 1 <<< ((value &&& 0x3800) >>> 11).toNat

/-- `_interruptVector` -/
def interruptVector (value : BitVec 16) : ℕ := (value &&& 0x7f).toNat <<< 2

inductive RingName
  | command
  | response
  deriving DecidableEq

structure Ring where
  length : ℕ
  /-- `_commandRingPointer`, `_responseRingPointer` -/
  pointer : ℕ
  descriptors : ℕ → Descriptor
  hostPointer : ℕ
  /-- the host has found no descriptor of its own and waits for an interrupt -/
  asleep : Bool
  /-- how many descriptors the host has handed over -/
  handed : ℕ
  /-- how many of them the port has released -/
  released : ℕ

namespace Ring

/-- The descriptor that the host looks at. -/
def hostDescriptor (r : Ring) : Descriptor := r.descriptors r.hostPointer

/-- `(pointer - 1) % length`, in 32 bits -/
def previous (r : Ring) : ℕ := (r.pointer + (2 ^ 32 - 1)) % 2 ^ 32 % r.length

/-- Is an interrupt due for the release of `d`? Before the release, the owner of the previous
descriptor tells whether the ring is all the port's. -/
def checkTransition (r : Ring) (d : Descriptor) : Bool :=
  if d.flag then
    if r.length = 1 then true else (r.descriptors r.previous).ownership
  else false

/-- The port resets the owner bit. -/
def release (r : Ring) : Ring :=
  { r with
    descriptors := Function.update r.descriptors r.pointer ⟨false, true⟩
    released := r.released + 1 }

def advance (r : Ring) : Ring := { r with pointer := (r.pointer + 1) % r.length }

/-- The host sets the owner bit, and asks for an interrupt. -/
def handOver (r : Ring) : Ring :=
  { r with
    descriptors := Function.update r.descriptors r.hostPointer ⟨true, true⟩
    hostPointer := (r.hostPointer + 1) % r.length
    handed := r.handed + 1 }

end Ring

/-- Where the polling thread is. -/
inductive Port
  | waiting
  /-- reading commands -/
  | draining
  /-- executing commands -/
  | answering
  /-- the descriptor `d` is the port's -/
  | fetched (r : RingName) (d : Descriptor)
  /-- the previous descriptor was read -/
  | checked (r : RingName) (d : Descriptor) (doInterrupt : Bool)
  | released (r : RingName) (doInterrupt : Bool)
  deriving DecidableEq

/-- The interrupt request in the adapter. -/
inductive Intr
  | free
  | requested
  /-- the CPU has its vector, the adapter does not know -/
  | delivered
  deriving DecidableEq

structure State where
  ring : RingName → Ring
  port : Port
  /-- the commands that are not yet answered -/
  messages : ℕ
  interruptVector : ℕ
  intr : Intr

namespace State

def setRing (s : State) (r : RingName) (x : Ring) : State :=
  { s with ring := Function.update s.ring r x }

/-- `Interrupt()` after initialization. `INTR()` does not raise again what is in its tables. -/
def interrupt (s : State) : State :=
  if s.interruptVector ≠ 0 ∧ s.intr = .free then { s with intr := .requested } else s

/-- The host sleeps, and the next descriptor is its own. -/
def Missed (s : State) (r : RingName) : Prop :=
  (s.ring r).asleep = true ∧ (s.ring r).hostDescriptor.ownership = false

instance (s : State) (r : RingName) : Decidable (s.Missed r) :=
  inferInstanceAs (Decidable (_ ∧ _))

end State

inductive Action
  /-- the polling thread is woken -/
  | startPoll
  | getNextCommand
  | postResponse
  | endPoll
  | check
  | release
  | notify
  | handOver (r : RingName)
  | sleep (r : RingName)
  /-- the host takes the interrupt -/
  | take
  /-- the adapter handles the end of the request -/
  | intrComplete

/-- A response that finds no descriptor is a fatal error. -/
def step (s : State) : Action → Option State
  | .startPoll => if s.port = .waiting then some { s with port := .draining } else none
  | .getNextCommand =>
    if s.port = .draining then
      let d := (s.ring .command).descriptors (s.ring .command).pointer
      if d.ownership then some { s with port := .fetched .command d }
      else some { s with port := .answering }
    else none
  | .postResponse =>
    if s.port = .answering ∧ s.messages ≠ 0 then
      let d := (s.ring .response).descriptors (s.ring .response).pointer
      if d.ownership then some { s with port := .fetched .response d } else none
    else none
  | .endPoll =>
    if s.port = .answering ∧ s.messages = 0 then some { s with port := .waiting } else none
  | .check =>
    match s.port with
    | .fetched r d => some { s with port := .checked r d ((s.ring r).checkTransition d) }
    | _ => none
  | .release =>
    match s.port with
    | .checked .command _ doInterrupt =>
      some ({ s with port := .released .command doInterrupt }.setRing .command
        (s.ring .command).release.advance)
    | .checked .response _ doInterrupt =>
      some ({ s with port := .released .response doInterrupt }.setRing .response
        (s.ring .response).release)
    | _ => none
  | .notify =>
    match s.port with
    | .released .command doInterrupt =>
      let s := if doInterrupt then s.interrupt else s
      some { s with port := .draining, messages := s.messages + 1 }
    | .released .response doInterrupt =>
      let s := if doInterrupt then s.interrupt else s
      some ({ s with port := .answering, messages := s.messages - 1 }.setRing .response
        (s.ring .response).advance)
    | _ => none
  | .handOver r =>
    if (s.ring r).asleep = false ∧ (s.ring r).hostDescriptor.ownership = false then
      some (s.setRing r (s.ring r).handOver)
    else none
  | .sleep r =>
    if (s.ring r).asleep = false ∧ (s.ring r).hostDescriptor.ownership = true then
      some (s.setRing r { s.ring r with asleep := true })
    else none
  | .take =>
    if s.intr = .requested then
      some { s with intr := .delivered, ring := fun r => { s.ring r with asleep := false } }
    else none
  | .intrComplete => if s.intr = .delivered then some { s with intr := .free } else none

end QUniBone.Mscp
