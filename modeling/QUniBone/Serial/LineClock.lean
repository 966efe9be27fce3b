import Mathlib.Tactic.Common
import Mathlib.Tactic.Ring
import Mathlib.Data.Int.Order.Basic

/-!
# The line clock

The worker of the KW11 in `dl11w.cpp`. A loop produces a tick, compares the time with a schedule,
and waits a period less what it is late, but at least half of one. Times are in nanoseconds; a
wait in world time takes at least the time it was asked for.

* `Loop`, `Worker`, `loop`: what delays a loop, and what it does.
* `run`, `due`, `lag`: the worker over any sequence of delays, and the schedule.
* `KeepsTime`: how it follows the schedule.
-/

namespace QUniBone.KW11

def BILLION : ℕ := 1000000000

/-- `intr_period_ns` -/
def intrPeriod (frequency : ℕ) : ℤ := (BILLION / frequency : ℕ)

/-- One loop, from its tick to the next. -/
structure Loop where
  ltcEnable : Bool
  /-- from the tick to `world_now_ns()` -/
  beforeNow : ℕ
  /-- around the wait, up to the next tick -/
  aroundWait : ℕ

namespace Loop

/-- the delay of its own -/
def delay (l : Loop) : ℤ := l.beforeNow + l.aroundWait

end Loop

structure Worker where
  /-- when the next tick is produced -/
  tick : ℤ
  /-- `world_next_intr_ns` -/
  worldNextIntr : ℤ
  globalEdgeCount : ℕ
  /-- the ticks produced, newest first -/
  ticks : List ℤ

/-- `wait_time_ns` -/
def waitTime (period missing : ℤ) : ℤ :=
  if period - missing < period / 2 then period / 2 else period - missing

def loop (frequency : ℕ) (w : Worker) (l : Loop) : Worker :=
  let now := w.tick + l.beforeNow
  let missing := now - w.worldNextIntr
  { tick := now + waitTime (intrPeriod frequency) missing + l.aroundWait
    worldNextIntr := w.worldNextIntr + intrPeriod frequency
    globalEdgeCount := if l.ltcEnable then w.globalEdgeCount + 1 else w.globalEdgeCount
    ticks := if l.ltcEnable then w.tick :: w.ticks else w.ticks }

/-- The worker after `n` loops. It starts with a delay, too. -/
def run (frequency : ℕ) (start : ℤ) (delay : ℕ) (loops : ℕ → Loop) : ℕ → Worker
  | 0 => ⟨start + delay, start, 0, []⟩
  | n + 1 => loop frequency (run frequency start delay loops n) (loops n)

/-- The schedule -/
def due (frequency : ℕ) (start : ℤ) (n : ℕ) : ℤ := start + n * intrPeriod frequency

section

variable (frequency : ℕ) (start : ℤ) (delay : ℕ) (loops : ℕ → Loop)

/-- How late is tick `n`? -/
def lag (n : ℕ) : ℤ := (run frequency start delay loops n).tick - due frequency start n

structure KeepsTime : Prop where
  /-- A tick is not produced before its time. -/
  notBefore : ∀ n, due frequency start n ≤ (run frequency start delay loops n).tick
  /-- Two ticks are half a period apart. -/
  apart : ∀ n, intrPeriod frequency / 2 ≤
    (run frequency start delay loops (n + 1)).tick - (run frequency start delay loops n).tick
  /-- A loop that is delayed by half a period at most does not fall back behind its own delay. -/
  noDrift : ∀ n, (loops n).delay ≤ intrPeriod frequency / 2 →
    lag frequency start delay loops (n + 1) ≤ max (lag frequency start delay loops n)
      (loops n).delay
  /-- A loop without delay catches up, until it is on time. -/
  catchUp : ∀ n, (loops n).delay = 0 →
    lag frequency start delay loops (n + 1) = 0 ∨
      lag frequency start delay loops (n + 1) < lag frequency start delay loops n
  /-- Each loop in which the clock is enabled produces its tick, and there are no others. -/
  ticks : ∀ n, (run frequency start delay loops n).ticks.reverse =
    ((List.range n).filter fun k => (loops k).ltcEnable).map fun k =>
      (run frequency start delay loops k).tick
  /-- No tick is ahead of the schedule. -/
  notAhead : ∀ n : ℕ,
    n ≤ ((run frequency start delay loops n).tick - start) / intrPeriod frequency
  /-- With less than a period of lag, there were as many ticks as the schedule has. -/
  count : ∀ n : ℕ, lag frequency start delay loops n < intrPeriod frequency →
    ((run frequency start delay loops n).tick - start) / intrPeriod frequency = n

end

/-! ## One loop -/

variable {frequency : ℕ} {start : ℤ} {delay : ℕ} {loops : ℕ → Loop}

theorem waitTime_eq (period missing : ℤ) :
    waitTime period missing = period - missing + max (missing - (period - period / 2)) 0 := by
  unfold waitTime
  split <;> omega

theorem due_succ (n : ℕ) :
    due frequency start (n + 1) = due frequency start n + intrPeriod frequency := by
  rw [due, due]
  push_cast
  ring

theorem worldNextIntr_run (n : ℕ) :
    (run frequency start delay loops n).worldNextIntr = due frequency start n := by
  induction n with
  | zero => simp [run, due]
  | succ n ih =>
    show (run frequency start delay loops n).worldNextIntr + intrPeriod frequency = _
    rw [ih, due_succ]

/-- What a loop does to the lag: it loses up to half a period, and gains its delay. -/
theorem lag_succ (n : ℕ) :
    lag frequency start delay loops (n + 1) =
      max (lag frequency start delay loops n + (loops n).beforeNow -
        (intrPeriod frequency - intrPeriod frequency / 2)) 0 + (loops n).aroundWait := by
  have hnext := @due_succ frequency start n
  have htick : (run frequency start delay loops (n + 1)).tick =
      (run frequency start delay loops n).tick + (loops n).beforeNow +
        waitTime (intrPeriod frequency) ((run frequency start delay loops n).tick +
          (loops n).beforeNow - due frequency start n) + (loops n).aroundWait := by
    rw [← worldNextIntr_run n]
    rfl
  rw [waitTime_eq] at htick
  simp only [lag]
  omega

theorem lag_zero : lag frequency start delay loops 0 = delay := by
  simp [lag, run, due]

theorem lag_nonneg (n : ℕ) : 0 ≤ lag frequency start delay loops n := by
  cases n with
  | zero => rw [lag_zero]; omega
  | succ n => rw [lag_succ]; omega

theorem tick_sub_start (n : ℕ) :
    (run frequency start delay loops n).tick - start =
      lag frequency start delay loops n + n * intrPeriod frequency := by
  simp only [lag, due]
  omega

/-! ## Runs -/

theorem ticks_run (n : ℕ) :
    (run frequency start delay loops n).ticks.reverse =
      ((List.range n).filter fun k => (loops k).ltcEnable).map fun k =>
        (run frequency start delay loops k).tick := by
  induction n with
  | zero => simp [run]
  | succ n ih =>
    have hticks : (run frequency start delay loops (n + 1)).ticks =
        if (loops n).ltcEnable then
          (run frequency start delay loops n).tick :: (run frequency start delay loops n).ticks
        else (run frequency start delay loops n).ticks := rfl
    rw [hticks, List.range_succ, List.filter_append, List.map_append, ← ih]
    cases h : (loops n).ltcEnable
    case false => simp [h]
    case true => simp [h]

/-- The clock follows the schedule, whatever the delays. -/
theorem keepsTime (hpos : 0 < frequency) (hle : frequency ≤ BILLION) :
    KeepsTime frequency start delay loops := by
  have hperiod : 0 < intrPeriod frequency :=
    Int.natCast_pos.mpr (Nat.div_pos hle hpos)
  constructor
  case notBefore =>
    intro n
    have h := @lag_nonneg frequency start delay loops n
    simp only [lag] at h
    omega
  case apart =>
    intro n
    -- the wait is at least half a period, and delays only add to it
    have hn := @tick_sub_start frequency start delay loops n
    have hsucc := @tick_sub_start frequency start delay loops (n + 1)
    have hlag := @lag_succ frequency start delay loops n
    have hnext := @due_succ frequency start n
    simp only [due] at hnext
    omega
  case noDrift =>
    intro n hdelay
    have hlag := @lag_succ frequency start delay loops n
    simp only [Loop.delay] at hdelay ⊢
    omega
  case catchUp =>
    intro n hdelay
    have hlag := @lag_succ frequency start delay loops n
    have hn := @lag_nonneg frequency start delay loops n
    simp only [Loop.delay] at hdelay
    omega
  case ticks => exact ticks_run
  case notAhead =>
    intro n
    rw [tick_sub_start, Int.add_mul_ediv_right _ _ hperiod.ne']
    have h := Int.ediv_nonneg (@lag_nonneg frequency start delay loops n) hperiod.le
    omega
  case count =>
    intro n hlag
    rw [tick_sub_start, Int.add_mul_ediv_right _ _ hperiod.ne',
      Int.ediv_eq_zero_of_lt (lag_nonneg n) hlag, Int.zero_add]

/-- At 60 Hz, with delays as they come. -/
theorem keepsTime_60 :
    KeepsTime 60 0 5 fun n => ⟨true, n % 3 * 1000000, n % 7 * 4000000⟩ :=
  keepsTime (by decide) (by decide)

/-- A clock that is on time falls back by the delay of a loop. -/
theorem lag_grows :
    ¬ ∀ (frequency : ℕ) (start : ℤ) (delay : ℕ) (loops : ℕ → Loop) (n : ℕ),
      0 < frequency → frequency ≤ BILLION → (loops n).delay ≤ intrPeriod frequency / 2 →
        lag frequency start delay loops (n + 1) ≤ lag frequency start delay loops n := by
  intro h
  have hlag := h 60 0 0 (fun _ => ⟨true, 0, 1⟩) 0 (by decide) (by decide) (by decide)
  revert hlag
  decide

end QUniBone.KW11
