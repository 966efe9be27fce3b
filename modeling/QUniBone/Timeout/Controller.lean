import QUniBone.Lib.Agenda
import Mathlib.Logic.Function.Basic
import Mathlib.Data.BitVec

/-!
# Flexible timeouts

`timeout.hpp`, `timeout.cpp`: the delays of the device emulators. In world time a thread sleeps by
`nanosleep()`. In emulated time, which a running emulated CPU makes, it waits on a semaphore in a
`flexi_timeout_c`, and `flexi_timeout_controller_c` keeps a list of these.

The threads run in steps between which they share `mode`, `emu_now_ns` and the time stamps without
a lock. What is done under the mutex is one step, except in `set_mode`, where the others can see
the variables between its assignments.

* `Timeout`, `Phase`: a timeout, and how far the thread is that uses it.
* `Call`: how far a thread is in `emu_step_ns` or `set_mode`.
* `State`, `Action`, `step`: the controller and its steps.
* `Asserts`: the assertions in the code.
-/

namespace QUniBone.FlexiTimeout

/-- `uint64_t` -/
instance uint64LinearOrder : LinearOrder (BitVec 64) where
  le_refl x := Nat.le_refl x.toNat
  le_trans _ _ _ := Nat.le_trans
  le_antisymm _ _ h k := BitVec.eq_of_toNat_eq (Nat.le_antisymm h k)
  le_total x y := Nat.le_total x.toNat y.toNat
  lt_iff_le_not_ge _ _ := Nat.lt_iff_le_and_not_ge
  toDecidableLE := inferInstance
  toDecidableLT := inferInstance

inductive Mode
  | worldTime
  | emulatedTime
  deriving DecidableEq

/-- `flexi_timeout_c`. The semaphore is only initialized if the timeout is constructed in emulated
time. -/
structure Timeout where
  starttime : BitVec 64
  signaltime : BitVec 64
  semaphore : Option ℕ
  /-- have the time stamps been set? -/
  started : Bool
  /-- how often the semaphore has been posted -/
  posts : ℕ

namespace Timeout

/-- The time stamps when the mode changes to world time. -/
def convert (x : Timeout) (now emuNow : BitVec 64) : Timeout :=
  { x with starttime := x.starttime + now - emuNow, signaltime := x.signaltime + now - emuNow }

/-- `sem_post` -/
def post (x : Timeout) : Timeout :=
  { x with semaphore := x.semaphore.map (· + 1), posts := x.posts + 1 }

def stamp (x : Timeout) (now duration : BitVec 64) : Timeout :=
  { x with starttime := now, signaltime := now + duration, started := true }

end Timeout

/-- What is done next with a timeout. `wait` is the timeout of a `wait_ns` call, on the stack of
the thread that waits. -/
inductive Phase
  /-- there is none -/
  | absent
  /-- `wait_ns` in `nanosleep()` -/
  | sleeping
  /-- `wait_ns` has found emulated time -/
  | waitTested (duration : BitVec 64)
  /-- the constructor has put it into `timeout_list` -/
  | listed (wait : Option (BitVec 64))
  /-- set the time stamps from `emu_now_ns` -/
  | stamping (wait : Bool) (duration : BitVec 64)
  /-- `start_ns` has found world time -/
  | worldStamping (duration : BitVec 64)
  | inserting (wait : Bool)
  /-- `sem_wait` -/
  | waiting
  /-- `sem_wait` has returned -/
  | woken
  /-- constructed by the owner, who may call `start_ns` -/
  | ready
  /-- the destructor has done with the semaphore -/
  | erasing
  deriving DecidableEq

variable {τ σ : Type} [DecidableEq τ] [DecidableEq σ]

/-- What `elapsed` and `reached` are computed from. -/
structure Clocks (τ : Type) where
  now : BitVec 64
  worldNow : BitVec 64
  timeouts : τ → Option Timeout

/-- `emu_step_ns` and `set_mode`. -/
inductive Call (τ : Type)
  | none
  /-- `emu_step_ns` has found emulated time -/
  | stepTested (delta : BitVec 32)
  /-- `emu_now_ns` has been read -/
  | stepRead (emuNow : BitVec 64) (delta : BitVec 32)
  | stepAdded
  | scanning
  /-- `set_mode` has found another mode than the new one -/
  | modeTested (newMode : Mode)
  /-- `set_mode` is between its assignments, with the clocks when it started -/
  | switching (newMode : Mode) (before : Clocks τ)

/-- The controller, the timeouts and the threads. A timeout that is there is in `timeout_list`. -/
structure State (τ σ : Type) where
  mode : Mode
  emuNow : BitVec 64
  emuOldest : BitVec 64
  /-- `emu_timeout_wait_list` -/
  waitList : List (BitVec 64 × τ)
  timeouts : τ → Option Timeout
  phase : τ → Phase
  call : σ → Call τ
  mutex : Option σ
  /-- `world_now_ns()` -/
  worldNow : BitVec 64

inductive Action (τ σ : Type)
  /-- world time passes -/
  | tick (delta : ℕ)
  | wait (o : τ) (duration : BitVec 64)
  | slept (o : τ)
  | construct (o : τ) (garbage : BitVec 64 × BitVec 64)
  | initSemaphore (o : τ)
  | start (o : τ) (duration : BitVec 64)
  | stamp (o : τ)
  | insert (o : τ)
  | wake (o : τ)
  /-- a signal handler ends `sem_wait` -/
  | interrupt (o : τ)
  | destroy (o : τ)
  | erase (o : τ)
  | emuStep (c : σ) (delta : BitVec 32)
  | readClock (c : σ)
  | addClock (c : σ)
  | quickTest (c : σ)
  | scan (c : σ)
  | setMode (c : σ) (newMode : Mode)
  | lockSwitch (c : σ)
  | endSwitch (c : σ)

namespace State

def initial (worldNow : BitVec 64) : State τ σ where
  mode := .worldTime
  emuNow := 0
  emuOldest := 0
  waitList := []
  timeouts _ := none
  phase _ := .absent
  call _ := .none
  mutex := none
  worldNow := worldNow

/-- The clock of the mode. -/
def now (s : State τ σ) : BitVec 64 :=
  match s.mode with
  | .worldTime => s.worldNow
  | .emulatedTime => s.emuNow

/-- `elapsed_ns` -/
def elapsed (s : State τ σ) (o : τ) : Option (BitVec 64) :=
  (s.timeouts o).map fun x => s.now - x.starttime

/-- `reached` -/
def reached (s : State τ σ) (o : τ) : Option Bool :=
  (s.timeouts o).map fun x => decide (x.signaltime ≤ s.now)

def clocks (s : State τ σ) : Clocks τ := ⟨s.now, s.worldNow, s.timeouts⟩

/-- `it->second->signaltime_ns` -/
def signaltime (s : State τ σ) (o : τ) : BitVec 64 :=
  match s.timeouts o with
  | some x => x.signaltime
  | none => 0

/-- `emu_oldest_signal_time_ns` from the head of the list. -/
def oldest (s : State τ σ) : BitVec 64 :=
  match s.waitList with
  | [] => 0
  | e :: _ => s.signaltime e.2

def setPhase (s : State τ σ) (o : τ) (p : Phase) : State τ σ :=
  { s with phase := Function.update s.phase o p }

/-- Only the timeout `o` changes. -/
def put (s : State τ σ) (o : τ) (p : Phase) (x : Option Timeout) : State τ σ :=
  { s with phase := Function.update s.phase o p, timeouts := Function.update s.timeouts o x }

def setCall (s : State τ σ) (c : σ) (call : Call τ) : State τ σ :=
  { s with call := Function.update s.call c call }

end State

/-- The loops in `emu_step_ns` and `set_mode`: entries are posted and erased from the head on, as
long as they are due. -/
def postWhile (due : Timeout → Bool) :
    List (BitVec 64 × τ) → (τ → Option Timeout) → List (BitVec 64 × τ) × (τ → Option Timeout)
  | [], timeouts => ([], timeouts)
  | e :: l, timeouts =>
    match timeouts e.2 with
    | some x =>
      if due x then postWhile due l (Function.update timeouts e.2 (some x.post))
      else (e :: l, timeouts)
    | none => (e :: l, timeouts)

/-- The next step of a thread. `none` when the thread is not there or the mutex is taken. -/
def step (s : State τ σ) : Action τ σ → Option (State τ σ)
  | .tick delta =>
    if s.worldNow.toNat + delta < 2 ^ 64 then
      some { s with worldNow := s.worldNow + BitVec.ofNat 64 delta }
    else none
  | .wait o duration =>
    if s.phase o = .absent then
      match s.mode with
      | .worldTime => some (s.setPhase o .sleeping)
      | .emulatedTime => some (s.setPhase o (.waitTested duration))
    else none
  | .slept o => if s.phase o = .sleeping then some (s.setPhase o .absent) else none
  | .construct o garbage =>
    if s.mutex = none then
      let x : Timeout := ⟨garbage.1, garbage.2, none, false, 0⟩
      match s.phase o with
      | .absent => some (s.put o (.listed none) (some x))
      | .waitTested duration => some (s.put o (.listed (some duration)) (some x))
      | _ => none
    else none
  | .initSemaphore o =>
    match s.phase o, s.timeouts o with
    | .listed wait, some x =>
      let next : Phase :=
        match wait with
        | none => .ready
        | some duration => .stamping true duration
      match s.mode with
      | .worldTime => some (s.put o next (some x))
      | .emulatedTime => some (s.put o next (some { x with semaphore := some 0 }))
    | _, _ => none
  | .start o duration =>
    if s.phase o = .ready then
      match s.mode with
      | .worldTime => some (s.setPhase o (.worldStamping duration))
      | .emulatedTime => some (s.setPhase o (.stamping false duration))
    else none
  | .stamp o =>
    match s.phase o, s.timeouts o with
    | .stamping wait duration, some x =>
      some (s.put o (.inserting wait) (some (x.stamp s.emuNow duration)))
    | .worldStamping duration, some x =>
      some (s.put o .ready (some (x.stamp s.worldNow duration)))
    | _, _ => none
  | .insert o =>
    if s.mutex = none then
      match s.phase o, s.timeouts o with
      | .inserting wait, some x =>
        let s := { s with waitList := Agenda.insert (x.starttime, o) s.waitList }
        some ({ s with emuOldest := s.oldest }.setPhase o (if wait then .waiting else .ready))
      | _, _ => none
    else none
  | .wake o =>
    match s.phase o, s.timeouts o with
    | .waiting, some x =>
      match x.semaphore with
      | some (n + 1) => some (s.put o .woken (some { x with semaphore := some n }))
      | _ => none
    | _, _ => none
  | .interrupt o => if s.phase o = .waiting then some (s.setPhase o .woken) else none
  | .destroy o =>
    if s.phase o = .woken ∨ s.phase o = .ready then
      match s.mode, s.timeouts o with
      | .emulatedTime, some x => some (s.put o .erasing (some { x with semaphore := none }))
      | _, x => some (s.put o .erasing x)
    else none
  | .erase o =>
    if s.mutex = none ∧ s.phase o = .erasing then some (s.put o .absent none) else none
  | .emuStep c delta =>
    match s.call c, s.mode with
    | .none, .worldTime => some s
    | .none, .emulatedTime => some (s.setCall c (.stepTested delta))
    | _, _ => none
  | .readClock c =>
    match s.call c with
    | .stepTested delta => some (s.setCall c (.stepRead s.emuNow delta))
    | _ => none
  | .addClock c =>
    match s.call c with
    | .stepRead emuNow delta =>
      some ({ s with emuNow := emuNow + delta.setWidth 64 }.setCall c .stepAdded)
    | _ => none
  | .quickTest c =>
    match s.call c with
    | .stepAdded =>
      if s.emuOldest ≠ 0 ∧ s.emuOldest ≤ s.emuNow then some (s.setCall c .scanning)
      else some (s.setCall c .none)
    | _ => none
  | .scan c =>
    match s.call c, s.mutex with
    | .scanning, none =>
      let (l, timeouts) :=
        postWhile (fun x => decide (x.signaltime ≤ s.emuNow)) s.waitList s.timeouts
      let s := { s with waitList := l, timeouts := timeouts }
      some ({ s with emuOldest := s.oldest }.setCall c .none)
    | _, _ => none
  | .setMode c newMode =>
    match s.call c with
    | .none => if s.mode = newMode then some s else some (s.setCall c (.modeTested newMode))
    | _ => none
  | .lockSwitch c =>
    match s.call c, s.mutex with
    | .modeTested _, none =>
      match s.mode with
      | .worldTime =>
        some ({ s with mode := .emulatedTime, mutex := some c }.setCall c
          (.switching .emulatedTime s.clocks))
      | .emulatedTime =>
        let timeouts o := (s.timeouts o).map fun x => x.convert s.worldNow s.emuNow
        some ({ s with timeouts := timeouts, mutex := some c }.setCall c
          (.switching .worldTime s.clocks))
    | _, _ => none
  | .endSwitch c =>
    match s.call c with
    | .switching .emulatedTime _ =>
      some ({ s with emuNow := s.worldNow, emuOldest := 0, mutex := none }.setCall c .none)
    | .switching .worldTime _ =>
      let (l, timeouts) := postWhile (fun _ => true) s.waitList s.timeouts
      some ({ s with
        mode := .worldTime, waitList := l, timeouts := timeouts, mutex := none }.setCall c .none)
    | _ => none

/-- The assertions: a semaphore is destroyed with value 0, emulated time starts with an empty
list, and `sem_post` finds a semaphore. -/
def Asserts (s : State τ σ) : Action τ σ → Prop
  | .destroy o => s.mode = .emulatedTime → ∃ x, s.timeouts o = some x ∧ x.semaphore = some 0
  | .scan _ => ∀ e ∈ s.waitList, ∃ x, s.timeouts e.2 = some x ∧ x.semaphore ≠ none
  | .endSwitch c => ∀ newMode before, s.call c = .switching newMode before →
      match newMode with
      | .emulatedTime => s.waitList = []
      | .worldTime => ∀ e ∈ s.waitList, ∃ x, s.timeouts e.2 = some x ∧ x.semaphore ≠ none
  | _ => True

end QUniBone.FlexiTimeout
