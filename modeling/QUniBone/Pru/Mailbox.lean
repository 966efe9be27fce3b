import QUniBone.Cpu.Core

/-!
# The mailbox between ARM and PRU

`shared/mailbox.h`, `shared/pru1_timeouts`. Events go from PRU to ARM through pairs of rolling
byte counters, of which each side writes only one.

* `Event`: the counters of one event source, `EVENT_SIGNAL`, `EVENT_ACK`, `EVENT_IS_ACKED`.
* `Timeouts`: the timers of the PRU over its cycle counter.
-/

namespace QUniBone

/-- `uint8_t` -/
abbrev Byte := BitVec 8

/-! ## Arbitration bits -/

namespace PriorityArbitration

/-- `PRIORITY_ARBITRATION_BIT_NP` -/
def bitNp : Byte := 0x10

/-- `PRIORITY_ARBITRATION_INTR_MASK`: BR4 to BR7 -/
def intrMask : Byte := 0x0f

/-- `PRIORITY_ARBITRATION_BIT_MASK` -/
def bitMask : Byte := 0x1f

end PriorityArbitration

/-- `CPU_PRIORITY_LEVEL_FETCHING` -/
def cpuPriorityLevelFetching : Byte := 0xff

/-- `BIT(n)` -/
def bit (n : ℕ) : Byte := BitVec.twoPow 8 n

/-- The new content of a register of which only the bits in `mask` are written. -/
def setbits (old mask val : Byte) : Byte := (old &&& ~~~mask) ||| (val &&& mask)

/-! ## Events -/

/-- The counters of an event source. -/
structure Event where
  /-- written by the PRU -/
  signaled : Byte
  /-- written by ARM -/
  acked : Byte
  deriving DecidableEq, Inhabited

namespace Event

/-- `EVENT_SIGNAL` -/
def signal (e : Event) : Event := { e with signaled := e.signaled + 1 }

/-- `EVENT_ACK` -/
def ack (e : Event) : Event := { e with acked := e.acked + 1 }

/-- `EVENT_IS_ACKED` -/
def isAcked (e : Event) : Bool := e.signaled == e.acked

end Event

/-! ## Timeouts -/

/-- The timers, members of `timeout_target_cycles`. -/
inductive TimeoutId
  | dma
  | sack
  deriving DecidableEq

/-- `pru1_timeouts.c`: the timers, and the cycle counter `PRU1_CTRL.CYCLE`. -/
structure Timeouts where
  /-- `timeouts_active` -/
  active : Byte
  cycle : UInt
  /-- `timeout_target_cycles`, 0 for a timer that does not run -/
  target : TimeoutId → UInt

namespace Timeouts

/-- `TIMEOUT_INTERNAL_CYCLES` -/
def internalCycles : UInt := 24

/-- `MILLISECS(n)` -/
def millisecs (n : ℕ) : UInt := BitVec.ofNat 32 (n * 1000000 / 5)

/-- `MICROSECS(n)` -/
def microsecs (n : ℕ) : UInt := BitVec.ofNat 32 (n * 1000 / 5)

/-- `timeout_cleanup` -/
def cleanup (t : Timeouts) (id : TimeoutId) : Timeouts :=
  if t.target id > 0 then
    { t with target := fun i => if i = id then 0 else t.target i, active := t.active - 1 }
  else t

/-- `timeout_set`. A running timer is stopped first, the counter restarts with the first one. -/
def set (t : Timeouts) (id : TimeoutId) (deltaCycles : UInt) : Timeouts :=
  let t := t.cleanup id
  let t := if t.active = 0 then { t with cycle := 0 } else t
  let delta := if deltaCycles < internalCycles then 0 else deltaCycles - internalCycles
  { t with
    target := fun i => if i = id then t.cycle + delta else t.target i
    active := t.active + 1 }

/-- What `timeout_reached` returns. A timer that does not run counts as reached. -/
def reached (t : Timeouts) (id : TimeoutId) : Bool :=
  !decide (t.cycle < t.target id)

/-- `timeout_reached` on the state: a timer that is reached stops. -/
def poll (t : Timeouts) (id : TimeoutId) : Timeouts :=
  if t.cycle < t.target id then t
  else if t.target id = 0 then t
  else { t with target := fun i => if i = id then 0 else t.target i, active := t.active - 1 }

end Timeouts

end QUniBone
