import QUniBone.Lib.Transition
import Mathlib.Logic.Function.Basic
import Mathlib.Data.BitVec

/-!
# Timeouts of the PRU, QBUS variant

`TIMEOUT_SET` and `TIMEOUT_REACHED` in `pru1_q/pru1_timeouts.h`. All timers share the cycle
counter of the PRU, which stops at its end and is restarted by the macro that finds it there.

* `Pru`, `timeoutSet`, `timeoutReached`: the counter, the control blocks and the macros.
* `Armed`, `Accurate`: the cycles counted since a timer was set, and the answer they call for.
* `OnTime`: a poll does not come too late for the revolution of the counter.
* `reached_accurate_iff`: the answers that are right.
* `stopped_before_poll`: a timeout that is lost because the counter came to its end.
-/

namespace QUniBone.TimeoutMacros

open Transition

/-! ## Model -/

/-- The fixed indices -/
inductive Timeout
  | dma
  | sack
  | qbusInit
  | test
  deriving DecidableEq

/-- `timeout_controlblock_t` -/
structure ControlBlock where
  /-- must be reached for timeout -/
  targetCycles : ℕ
  /-- the cycle counter must roll over to reach the target -/
  rollOver : Bool

structure Pru where
  /-- `PRU1_CTRL.CYCLE` -/
  cycle : ℕ
  timeoutControlblock : Timeout → ControlBlock

/-- `_cycles` in both macros -/
def Pru.cycles (p : Pru) : ℕ := (p.cycle + 1) % 2 ^ 32

/-- The counter continues from 0 if it is found at its end. -/
def Pru.restart (p : Pru) : Pru := if p.cycles = 0 then { p with cycle := 0 } else p

def timeoutSet (p : Pru) (idx : Timeout) (delayTicks : ℕ) : Pru :=
  let target := (p.cycles + delayTicks) % 2 ^ 32
  { p.restart with
    timeoutControlblock :=
      Function.update p.timeoutControlblock idx ⟨target, decide (target < p.cycles)⟩ }

def timeoutReached (p : Pru) (idx : Timeout) : Bool × Pru :=
  let block := p.timeoutControlblock idx
  -- cycle count not yet wrapped around to "near-zero"
  (if block.rollOver && decide (0x80000000 < p.cycles) then false
    else decide (block.targetCycles ≤ p.cycles), p.restart)

/-- The counter while `d` cycles pass. -/
def Pru.elapse (p : Pru) (d : ℕ) : Pru := { p with cycle := min (p.cycle + d) 0xffffffff }

/-! ## Runs -/

/-- What has passed since a timer was set. -/
structure Armed where
  delay : ℕ
  /-- `_cycles` when it was set -/
  start : ℕ
  /-- the cycles that the counter has counted since -/
  counted : ℕ
  /-- how often it was restarted since -/
  restarts : ℕ

structure State where
  pru : Pru
  armed : Timeout → Option Armed

inductive Action
  | elapse (d : ℕ)
  | set (idx : Timeout) (delayTicks : ℕ)
  | poll (idx : Timeout)

/-- Delays that the macros allow. -/
def Action.Valid : Action → Prop
  | .set _ delayTicks => delayTicks < 2 ^ 31
  | _ => True

/-- A timer when the counter goes from one value to the next, or is found at its end. -/
def Armed.counting (d : ℕ) (a : Armed) : Armed := { a with counted := a.counted + d }

def Armed.restarting (p : Pru) (a : Armed) : Armed :=
  if p.cycles = 0 then { a with restarts := a.restarts + 1 } else a

def step (s : State) : Action → State
  | .elapse d =>
    { pru := s.pru.elapse d
      armed := fun i => (s.armed i).map (.counting ((s.pru.elapse d).cycle - s.pru.cycle)) }
  | .set idx delayTicks =>
    { pru := timeoutSet s.pru idx delayTicks
      armed := Function.update (fun i => (s.armed i).map (.restarting s.pru)) idx
        (some ⟨delayTicks, s.pru.cycles, 0, 0⟩) }
  | .poll idx =>
    { pru := (timeoutReached s.pru idx).2
      armed := fun i => (s.armed i).map (.restarting s.pru) }

/-- The counter is anywhere, and no timer is set. -/
def Initial (s : State) : Prop := s.pru.cycle ≤ 0xffffffff ∧ ∀ i, s.armed i = none

def Step (s t : State) : Prop := ∃ a : Action, a.Valid ∧ step s a = t

/-- Not reached as long as fewer than `delay` cycles are counted, and reached then. The macros may
be one cycle early. -/
def Accurate (a : Armed) (reached : Bool) : Prop :=
  (a.counted + 1 < a.delay → reached = false) ∧ (a.delay ≤ a.counted → reached = true)

/-- A target before the end of the counter is polled before the counter comes to its end. One
behind it is polled before the counter is at half its range again. Else the counter must have
passed the target once more. -/
def OnTime (p : Pru) (idx : Timeout) (a : Armed) : Prop :=
  let block := p.timeoutControlblock idx
  if block.rollOver then
    a.restarts = 0 ∨ (a.restarts = 1 ∧ p.cycle < 0x80000000) ∨
      (p.cycles ≤ 0x80000000 ∧ block.targetCycles ≤ p.cycles)
  else (a.restarts = 0 ∧ p.cycle ≠ 0xffffffff) ∨ block.targetCycles ≤ p.cycles

/-! ## Counted cycles -/

/-- How a control block, the counter and the counted cycles belong together. -/
structure Armed.Inv (cycle : ℕ) (block : ControlBlock) (a : Armed) : Prop where
  delay_lt : a.delay < 2 ^ 31
  start_lt : a.start < 2 ^ 32
  target : block.targetCycles = (a.start + a.delay) % 2 ^ 32
  rollOver : block.rollOver = decide (block.targetCycles < a.start)
  -- each revolution counts all values but the 0 that is written
  counted : a.counted + (a.start - 1) = a.restarts * 0xffffffff + cycle

structure Inv (s : State) : Prop where
  cycle : s.pru.cycle ≤ 0xffffffff
  armed : ∀ i a, s.armed i = some a → a.Inv s.pru.cycle (s.pru.timeoutControlblock i)

section Counter

variable {p : Pru} {idx i : Timeout} {delay : ℕ}

theorem Pru.cycles_eq_zero_iff (h : p.cycle ≤ 0xffffffff) :
    p.cycles = 0 ↔ p.cycle = 0xffffffff := by
  rw [Pru.cycles]
  omega

theorem Pru.cycles_of_ne (h : p.cycle ≤ 0xffffffff) (hne : p.cycle ≠ 0xffffffff) :
    p.cycles = p.cycle + 1 := by
  rw [Pru.cycles]
  omega

theorem Pru.le_elapse (h : p.cycle ≤ 0xffffffff) (d : ℕ) : p.cycle ≤ (p.elapse d).cycle :=
  Nat.le_min.mpr ⟨Nat.le_add_right _ _, h⟩

theorem Pru.restart_le (h : p.cycle ≤ 0xffffffff) : p.restart.cycle ≤ 0xffffffff := by
  rw [Pru.restart]
  split
  · exact Nat.zero_le _
  · exact h

/-- A macro does not write the control blocks when it restarts the counter. -/
theorem Pru.restart_timeoutControlblock :
    p.restart.timeoutControlblock = p.timeoutControlblock := by
  rw [Pru.restart]
  split <;> rfl

theorem timeoutSet_self : (timeoutSet p idx delay).timeoutControlblock idx =
    ⟨(p.cycles + delay) % 2 ^ 32, decide ((p.cycles + delay) % 2 ^ 32 < p.cycles)⟩ :=
  Function.update_self ..

theorem timeoutSet_of_ne (h : i ≠ idx) :
    (timeoutSet p idx delay).timeoutControlblock i = p.timeoutControlblock i :=
  Function.update_of_ne h ..

end Counter

namespace Armed.Inv

variable {p : Pru} {block : ControlBlock} {a : Armed}

/-- The counter goes on from `m` to `n`. -/
theorem counting {m n : ℕ} (h : a.Inv m block) (hmn : m ≤ n) :
    (a.counting (n - m)).Inv n block := by
  refine ⟨h.delay_lt, h.start_lt, h.target, h.rollOver, ?_⟩
  have hcounted := h.counted
  rw [Armed.counting]
  dsimp only
  omega

theorem restarting (h : a.Inv p.cycle block) (hcycle : p.cycle ≤ 0xffffffff) :
    (a.restarting p).Inv p.restart.cycle block := by
  rw [Armed.restarting, Pru.restart]
  split
  · next hend =>
    rw [Pru.cycles_eq_zero_iff hcycle] at hend
    refine ⟨h.delay_lt, h.start_lt, h.target, h.rollOver, ?_⟩
    have hcounted := h.counted
    rw [hend] at hcounted
    dsimp only
    rw [Nat.add_zero, Nat.succ_mul, hcounted]
  · exact h

/-- A timer that was just set. -/
theorem set (hcycle : p.cycle ≤ 0xffffffff) {delay : ℕ} (hdelay : delay < 2 ^ 31) :
    Armed.Inv p.restart.cycle
      ⟨(p.cycles + delay) % 2 ^ 32, decide ((p.cycles + delay) % 2 ^ 32 < p.cycles)⟩
      ⟨delay, p.cycles, 0, 0⟩ := by
  refine ⟨hdelay, Nat.mod_lt _ (by decide), rfl, rfl, ?_⟩
  dsimp only
  rw [Nat.zero_add, Nat.zero_mul, Nat.zero_add, Pru.restart]
  split
  · next hend => rw [hend]
  · next hend =>
    rw [Pru.cycles_of_ne hcycle (mt (Pru.cycles_eq_zero_iff hcycle).mpr hend),
      Nat.add_sub_cancel]

end Armed.Inv

theorem Inv.initial {s : State} (h : Initial s) : Inv s where
  cycle := h.1
  armed i a ha := by
    rw [h.2 i] at ha
    cases ha

theorem Inv.step {s : State} (h : Inv s) {a : Action} (ha : a.Valid) : Inv (step s a) := by
  cases a with
  | elapse d =>
    refine ⟨Nat.min_le_right _ _, fun i b hb => ?_⟩
    obtain ⟨c, hc, rfl⟩ := Option.map_eq_some_iff.mp hb
    exact (h.armed i c hc).counting (Pru.le_elapse h.cycle d)
  | set idx delay =>
    refine ⟨Pru.restart_le h.cycle, fun i b hb => ?_⟩
    show b.Inv s.pru.restart.cycle ((timeoutSet s.pru idx delay).timeoutControlblock i)
    simp only [TimeoutMacros.step] at hb
    by_cases hi : i = idx
    · rw [hi, Function.update_self] at hb
      obtain rfl := Option.some.inj hb
      rw [hi, timeoutSet_self]
      exact .set h.cycle ha
    · rw [Function.update_of_ne hi] at hb
      obtain ⟨c, hc, rfl⟩ := Option.map_eq_some_iff.mp hb
      rw [timeoutSet_of_ne hi]
      exact (h.armed i c hc).restarting h.cycle
  | poll idx =>
    refine ⟨Pru.restart_le h.cycle, fun i b hb => ?_⟩
    obtain ⟨c, hc, rfl⟩ := Option.map_eq_some_iff.mp hb
    show (c.restarting s.pru).Inv s.pru.restart.cycle (s.pru.restart.timeoutControlblock i)
    rw [Pru.restart_timeoutControlblock]
    exact (h.armed i c hc).restarting h.cycle

/-! ## Answers -/

section Answers

variable {p : Pru} {idx : Timeout} {a : Armed} {reached : Bool}

/-- When the delay is over, only one answer is right. -/
theorem accurate_iff_of_elapsed (h : a.delay ≤ a.counted) : Accurate a reached ↔ reached = true :=
  ⟨fun haccurate => haccurate.2 h, fun hreached => ⟨fun hlt => by omega, fun _ => hreached⟩⟩

theorem timeoutReached_of_not_rollOver (hroll : (p.timeoutControlblock idx).rollOver = false) :
    (timeoutReached p idx).1 = true ↔ (p.timeoutControlblock idx).targetCycles ≤ p.cycles := by
  rw [timeoutReached, hroll]
  exact decide_eq_true_iff

theorem timeoutReached_of_rollOver (hroll : (p.timeoutControlblock idx).rollOver = true) :
    (timeoutReached p idx).1 = true ↔
      p.cycles ≤ 0x80000000 ∧ (p.timeoutControlblock idx).targetCycles ≤ p.cycles := by
  rw [timeoutReached, hroll, Bool.true_and]
  by_cases hhalf : 0x80000000 < p.cycles
  · refine iff_of_false (by simp [hhalf]) fun h => ?_
    omega
  · simp [hhalf, Nat.le_of_not_lt hhalf]

/-- A target before the end of the counter. -/
theorem accurate_iff_of_not_rollOver (hcycle : p.cycle ≤ 0xffffffff)
    (h : a.Inv p.cycle (p.timeoutControlblock idx))
    (hroll : (p.timeoutControlblock idx).rollOver = false) :
    Accurate a (timeoutReached p idx).1 ↔ OnTime p idx a := by
  obtain ⟨hdelay, hstart, htarget, hrollOver, hcounted⟩ := h
  rw [hroll, eq_comm, decide_eq_false_iff_not] at hrollOver
  have hsum : a.start + a.delay < 2 ^ 32 := by omega
  rw [Nat.mod_eq_of_lt hsum] at htarget
  have honTime : OnTime p idx a ↔ (a.restarts = 0 ∧ p.cycle ≠ 0xffffffff) ∨
      (p.timeoutControlblock idx).targetCycles ≤ p.cycles := by
    simp [OnTime, hroll]
  by_cases hfirst : a.restarts = 0 ∧ p.cycle ≠ 0xffffffff
  · -- counter and target are in the revolution of the set
    refine iff_of_true ?_ (honTime.mpr (.inl hfirst))
    have hcycles := Pru.cycles_of_ne hcycle hfirst.2
    rw [hfirst.1] at hcounted
    rw [Accurate, ← Bool.not_eq_true, timeoutReached_of_not_rollOver hroll, htarget, hcycles]
    omega
  · -- the counter came past the target
    have helapsed : a.delay ≤ a.counted := by
      rcases Nat.eq_zero_or_pos a.restarts with hzero | hpos
      · have hend : p.cycle = 0xffffffff := by
          by_contra hne
          exact hfirst ⟨hzero, hne⟩
        omega
      · omega
    rw [accurate_iff_of_elapsed helapsed, timeoutReached_of_not_rollOver hroll, honTime,
      or_iff_right hfirst]

/-- A target behind the end of the counter. -/
theorem accurate_iff_of_rollOver (hcycle : p.cycle ≤ 0xffffffff)
    (h : a.Inv p.cycle (p.timeoutControlblock idx))
    (hroll : (p.timeoutControlblock idx).rollOver = true) :
    Accurate a (timeoutReached p idx).1 ↔ OnTime p idx a := by
  obtain ⟨hdelay, hstart, htarget, hrollOver, hcounted⟩ := h
  rw [hroll, eq_comm, decide_eq_true_iff] at hrollOver
  have hsum : 2 ^ 32 ≤ a.start + a.delay := by
    by_contra hlt
    rw [Nat.mod_eq_of_lt (by omega)] at htarget
    omega
  have htarget : (p.timeoutControlblock idx).targetCycles + 2 ^ 32 = a.start + a.delay := by
    omega
  have honTime : OnTime p idx a ↔ a.restarts = 0 ∨ (a.restarts = 1 ∧ p.cycle < 0x80000000) ∨
      (p.cycles ≤ 0x80000000 ∧ (p.timeoutControlblock idx).targetCycles ≤ p.cycles) := by
    simp [OnTime, hroll]
  rw [honTime]
  by_cases hfirst : a.restarts = 0
  · -- the counter has not been restarted, or is just found at its end
    refine iff_of_true ?_ (.inl hfirst)
    rw [hfirst] at hcounted
    rw [Accurate, ← Bool.not_eq_true, timeoutReached_of_rollOver hroll]
    by_cases hend : p.cycle = 0xffffffff
    · rw [(Pru.cycles_eq_zero_iff hcycle).mpr hend]
      omega
    · rw [Pru.cycles_of_ne hcycle hend]
      omega
  · by_cases hsecond : a.restarts = 1 ∧ p.cycle < 0x80000000
    · -- the counter comes to the target in the next revolution
      refine iff_of_true ?_ (.inr (.inl hsecond))
      have hcycles := Pru.cycles_of_ne hcycle (by omega)
      rw [hsecond.1] at hcounted
      rw [Accurate, ← Bool.not_eq_true, timeoutReached_of_rollOver hroll, hcycles]
      omega
    · -- the counter came past the target
      have helapsed : a.delay ≤ a.counted := by omega
      rw [accurate_iff_of_elapsed helapsed, timeoutReached_of_rollOver hroll,
        or_iff_right hfirst, or_iff_right hsecond]

end Answers

/-- In every run, a poll of a timer answers right iff it is made on time. -/
theorem reached_accurate_iff {s : State} (h : Reachable Initial Step s) {idx : Timeout} {a : Armed}
    (ha : s.armed idx = some a) :
    Accurate a (timeoutReached s.pru idx).1 ↔ OnTime s.pru idx a := by
  have hinv : Inv s := by
    refine h.invariant (fun s => Inv.initial) (fun s t hs hstep => ?_)
    obtain ⟨act, hvalid, rfl⟩ := hstep
    exact hs.step hvalid
  cases hroll : (s.pru.timeoutControlblock idx).rollOver with
  | false => exact accurate_iff_of_not_rollOver hinv.cycle (hinv.armed idx a ha) hroll
  | true => exact accurate_iff_of_rollOver hinv.cycle (hinv.armed idx a ha) hroll

/-- The counter stands at `cycle`, and nothing is set. -/
def State.standing (cycle : ℕ) : State := ⟨⟨cycle, fun _ => ⟨0, false⟩⟩, fun _ => none⟩

/-- A timeout of 100 cycles, set 50 cycles before the end of the counter. -/
theorem reached_accurate_iff_roll :
    let s := step (step (step (step (State.standing 0xffffffcd) (.set .dma 100)) (.elapse 70))
      (.poll .sack)) (.elapse 30)
    ∃ a, s.armed .dma = some a ∧
      (Accurate a (timeoutReached s.pru .dma).1 ↔ OnTime s.pru .dma a) := by
  have start : Reachable Initial Step (State.standing 0xffffffcd) := .init ⟨by decide, fun _ => rfl⟩
  have armed := start.step ⟨.set .dma 100, (by decide : 100 < 2 ^ 31), rfl⟩
  have stopped := armed.step ⟨.elapse 70, trivial, rfl⟩
  have restarted := stopped.step ⟨.poll .sack, trivial, rfl⟩
  have polled := restarted.step ⟨.elapse 30, trivial, rfl⟩
  exact ⟨_, rfl, reached_accurate_iff polled rfl⟩

/-- A timeout of 40 cycles, set 50 cycles before the end of the counter, and polled when the
counter has come to its end: 50 cycles are counted, and the answer is no. -/
theorem stopped_before_poll :
    ¬∀ s, Reachable Initial Step s → ∀ idx a, s.armed idx = some a →
      Accurate a (timeoutReached s.pru idx).1 := by
  intro hall
  have start : Reachable Initial Step (State.standing 0xffffffcd) := .init ⟨by decide, fun _ => rfl⟩
  have armed := start.step ⟨.set .dma 40, (by decide : 40 < 2 ^ 31), rfl⟩
  have stopped := armed.step ⟨.elapse 70, trivial, rfl⟩
  have hreached := (hall _ stopped .dma _ rfl).2 (by decide)
  exact absurd hreached (by decide)

end QUniBone.TimeoutMacros
