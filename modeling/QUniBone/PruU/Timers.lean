import QUniBone.Pru.Mailbox
import QUniBone.Lib.Transition

/-!
# Timers of the UniBone's PRU

`timeout_set`, `timeout_reached` and `timeout_cleanup` in `pru1_u/pru1_timeouts.c`, called in any
order. The number of running timers decides when the shared cycle counter may be reset. A timer
runs while its target is not zero.

* `Timeouts.Counts`: the number of running timers is right.
* `counts_set_iff`: `timeout_set` keeps it right iff the target it computes is not zero.
* `State`, `step`: calls and time, with the cycles that have elapsed since each timer was set.
* `Kept`, `kept_iff`: what calls keep, and which.
-/

namespace QUniBone

namespace Timeouts

variable {t : Timeouts} {id i : TimeoutId} {delta : UInt}

/-! ## The number of running timers -/

/-- 1 for a timer that runs -/
def runs (t : Timeouts) (id : TimeoutId) : ℕ := if t.target id = 0 then 0 else 1

/-- How many targets are not zero. -/
def running (t : Timeouts) : ℕ := t.runs .dma + t.runs .sack

def Counts (t : Timeouts) : Prop := t.active.toNat = t.running

/-- The delay that is added to the counter. -/
def netDelay (delta : UInt) : UInt := if delta < internalCycles then 0 else delta - internalCycles

theorem toNat_zero : BitVec.toNat (0 : UInt) = 0 := rfl

theorem toNat_netDelay (delta : UInt) : (netDelay delta).toNat = delta.toNat - 24 := by
  have hinternal : internalCycles.toNat = 24 := rfl
  rw [netDelay]
  split
  · next hlt =>
    rw [BitVec.lt_def, hinternal] at hlt
    rw [toNat_zero]
    omega
  · next hge =>
    rw [BitVec.lt_def, hinternal] at hge
    rw [BitVec.toNat_sub_of_le (by rw [BitVec.le_def, hinternal]; omega), hinternal]

theorem pos_iff {x : UInt} : x > 0 ↔ x ≠ 0 := by
  rw [gt_iff_lt, BitVec.lt_def, toNat_zero, Nat.pos_iff_ne_zero]
  exact not_congr ⟨fun h => BitVec.eq_of_toNat_eq h, fun h => congrArg BitVec.toNat h⟩

theorem runs_eq_zero : t.runs id = 0 ↔ t.target id = 0 := by
  rw [runs]
  split
  · next h => exact iff_of_true rfl h
  · next h => exact iff_of_false Nat.one_ne_zero h

theorem runs_le (t : Timeouts) (id : TimeoutId) : t.runs id ≤ 1 := by
  rw [runs]
  split <;> omega

theorem running_le : t.running ≤ 2 := by
  have hdma := t.runs_le .dma
  have hsack := t.runs_le .sack
  rw [running]
  omega

/-- No timer runs. -/
theorem running_eq_zero : t.running = 0 ↔ ∀ i, t.target i = 0 := by
  rw [running, Nat.add_eq_zero_iff, runs_eq_zero, runs_eq_zero]
  refine ⟨fun h i => ?_, fun h => ⟨h .dma, h .sack⟩⟩
  cases i with
  | dma => exact h.1
  | sack => exact h.2

/-- One timer gets a target. -/
theorem running_update (id : TimeoutId) {u : Timeouts} (hother : ∀ i, i ≠ id → u.target i = t.target i) :
    u.running + t.runs id = t.running + u.runs id := by
  cases id with
  | dma =>
    have hsack : u.runs .sack = t.runs .sack := by rw [runs, hother .sack (by decide), runs]
    rw [running, running, hsack]
    omega
  | sack =>
    have hdma : u.runs .dma = t.runs .dma := by rw [runs, hother .dma (by decide), runs]
    rw [running, running, hdma]
    omega

/-! ## Cleanup -/

theorem cleanup_of_idle (h : t.target id = 0) : t.cleanup id = t := by
  rw [cleanup, h]
  exact if_neg (BitVec.lt_irrefl 0)

theorem cleanup_of_running (h : t.target id ≠ 0) : t.cleanup id =
    { t with target := fun i => if i = id then 0 else t.target i, active := t.active - 1 } :=
  if_pos (pos_iff.mpr h)

@[simp] theorem cleanup_cycle : (t.cleanup id).cycle = t.cycle := by
  by_cases h : t.target id = 0
  · rw [cleanup_of_idle h]
  · rw [cleanup_of_running h]

@[simp] theorem cleanup_target_self : (t.cleanup id).target id = 0 := by
  by_cases h : t.target id = 0
  · rw [cleanup_of_idle h, h]
  · rw [cleanup_of_running h]
    exact if_pos rfl

theorem cleanup_target_of_ne (hi : i ≠ id) : (t.cleanup id).target i = t.target i := by
  by_cases h : t.target id = 0
  · rw [cleanup_of_idle h]
  · rw [cleanup_of_running h]
    exact if_neg hi

theorem Counts.cleanup (h : t.Counts) : (t.cleanup id).Counts := by
  by_cases hidle : t.target id = 0
  · rwa [cleanup_of_idle hidle]
  · have hruns : t.runs id = 1 := if_neg hidle
    have hrunning := running_update id (t := t) (u := t.cleanup id) fun i hi =>
      cleanup_target_of_ne hi
    rw [hruns, runs_eq_zero.mpr cleanup_target_self] at hrunning
    have hactive : (t.cleanup id).active = t.active - 1 := by rw [cleanup_of_running hidle]
    rw [Counts] at h ⊢
    have hone : BitVec.toNat (1 : Byte) = 1 := rfl
    rw [hactive, BitVec.toNat_sub_of_le (by rw [BitVec.le_def, h, hone]; omega), h, hone]
    omega

/-- `timeout_reached` stops a timer as `timeout_cleanup` does. -/
theorem poll_eq (t : Timeouts) (id : TimeoutId) :
    t.poll id = if t.reached id then t.cleanup id else t := by
  rw [poll, reached]
  by_cases hlt : t.cycle < t.target id
  · rw [if_pos hlt, decide_eq_true hlt]
    rfl
  · rw [if_neg hlt, decide_eq_false hlt]
    by_cases hidle : t.target id = 0
    · rw [if_pos hidle, cleanup_of_idle hidle]
      rfl
    · rw [if_neg hidle, cleanup_of_running hidle]
      rfl

/-! ## Set -/

/-- The counter is reset if no other timer runs. -/
theorem set_cycle : (t.set id delta).cycle = if (t.cleanup id).active = 0 then 0 else t.cycle := by
  rw [set]
  split
  · rfl
  · exact cleanup_cycle

theorem set_target_self : (t.set id delta).target id = (t.set id delta).cycle + netDelay delta :=
  if_pos rfl

theorem set_target_of_ne (hi : i ≠ id) : (t.set id delta).target i = t.target i := by
  rw [set]
  refine (if_neg hi).trans ?_
  split <;> exact cleanup_target_of_ne hi

theorem set_active : (t.set id delta).active = (t.cleanup id).active + 1 := by
  rw [set]
  split <;> rfl

/-- A set timer is counted. It runs if its target is not zero. -/
theorem counts_set_iff (h : t.Counts) : (t.set id delta).Counts ↔ (t.set id delta).target id ≠ 0 := by
  have hcounts : (t.cleanup id).Counts := h.cleanup
  have hrunning := running_update id (t := t.cleanup id) (u := t.set id delta) fun i hi => by
    rw [set_target_of_ne hi, cleanup_target_of_ne hi]
  have hle := (t.cleanup id).running_le
  rw [runs_eq_zero.mpr cleanup_target_self] at hrunning
  have hactive : (t.set id delta).active.toNat = (t.cleanup id).running + 1 := by
    rw [set_active, BitVec.toNat_add, hcounts]
    show ((t.cleanup id).running + 1) % 256 = _
    omega
  rw [Nat.add_zero] at hrunning
  rw [Counts, hactive, hrunning, Nat.add_left_cancel_iff, eq_comm, ne_eq, ← runs_eq_zero]
  have := (t.set id delta).runs_le id
  omega

/-- With a right count, the counter is reset iff no other timer runs. -/
theorem cleanup_active_iff (h : t.Counts) :
    (t.cleanup id).active = 0 ↔ ∀ i, i ≠ id → t.target i = 0 := by
  have hcounts : (t.cleanup id).Counts := h.cleanup
  have hzero : (t.cleanup id).active = 0 ↔ (t.cleanup id).running = 0 := by
    rw [← hcounts]
    exact ⟨fun h => congrArg BitVec.toNat h, fun h => BitVec.eq_of_toNat_eq h⟩
  rw [hzero, running_eq_zero]
  refine ⟨fun hall i hi => ?_, fun hall i => ?_⟩
  · rw [← cleanup_target_of_ne hi]
    exact hall i
  · by_cases hi : i = id
    · rw [hi, cleanup_target_self]
    · rw [cleanup_target_of_ne hi, hall i hi]

/-- The counter is only reset when no other timer runs. -/
theorem set_cycle_of_counts (id : TimeoutId) (delta : UInt) (h : t.Counts) :
    ((∀ i, i ≠ id → t.target i = 0) ∧ (t.set id delta).cycle = 0) ∨
      ((∃ i, i ≠ id ∧ t.target i ≠ 0) ∧ (t.set id delta).cycle = t.cycle) := by
  rw [set_cycle]
  by_cases hothers : ∀ i, i ≠ id → t.target i = 0
  · exact .inl ⟨hothers, if_pos ((cleanup_active_iff h).mpr hothers)⟩
  · refine .inr ⟨?_, if_neg (mt (cleanup_active_iff h).mp hothers)⟩
    by_contra hnone
    exact hothers fun i hi => by_contra fun hne => hnone ⟨i, hi, hne⟩

end Timeouts

namespace PruU.Timers

open Transition

/-! ## Calls and time -/

/-- What is known of a timer that was set and has not ended. -/
structure Armed where
  delay : ℕ
  elapsed : ℕ

structure State where
  timeouts : Timeouts
  armed : TimeoutId → Option Armed

inductive Action
  | elapse (d : ℕ)
  | set (id : TimeoutId) (deltaCycles : UInt)
  | poll (id : TimeoutId)
  | cleanup (id : TimeoutId)

/-- The counter counts, and stops at its end. -/
def elapse (t : Timeouts) (d : ℕ) : Timeouts :=
  { t with cycle := BitVec.ofNat 32 (min (t.cycle.toNat + d) 0xffffffff) }

def Armed.later (d : ℕ) (a : Armed) : Armed := { a with elapsed := a.elapsed + d }

def step (s : State) : Action → State
  | .elapse d => ⟨elapse s.timeouts d, fun i => (s.armed i).map (.later d)⟩
  | .set id deltaCycles =>
    ⟨s.timeouts.set id deltaCycles, Function.update s.armed id (some ⟨deltaCycles.toNat, 0⟩)⟩
  | .poll id =>
    ⟨s.timeouts.poll id,
      if s.timeouts.reached id then Function.update s.armed id none else s.armed⟩
  | .cleanup id => ⟨s.timeouts.cleanup id, Function.update s.armed id none⟩

/-- After `timeout_init`. The counter is anywhere. -/
def Initial (s : State) : Prop :=
  s.timeouts.active = 0 ∧ (∀ i, s.timeouts.target i = 0) ∧ ∀ i, s.armed i = none

/-- Timers do not run beyond the range of the counter, taken together. -/
def Valid (s : State) : Action → Prop
  | .elapse d => s.timeouts.running ≠ 0 → s.timeouts.cycle.toNat + d < 2 ^ 32
  | .set id deltaCycles => (∃ i, i ≠ id ∧ s.timeouts.target i ≠ 0) →
      s.timeouts.cycle.toNat + (deltaCycles.toNat - 24) < 2 ^ 32
  | _ => True

/-- A delay is longer than the cycles that are subtracted from it, or the counter has left 0
with another timer. -/
def Careful (s : State) : Action → Prop
  | .set id deltaCycles => 24 < deltaCycles.toNat ∨
      ((∃ i, i ≠ id ∧ s.timeouts.target i ≠ 0) ∧ s.timeouts.cycle ≠ 0)
  | _ => True

def CarefulStep (s t : State) : Prop := ∃ a, Valid s a ∧ Careful s a ∧ step s a = t

/-- What the calls are to keep. -/
structure Kept (s : State) : Prop where
  /-- `timeouts_active` is the number of timers with a target. -/
  active : s.timeouts.Counts
  /-- The counter is reset only when no other timer runs. -/
  reset : ∀ id deltaCycles, (s.timeouts.set id deltaCycles).cycle ≠ s.timeouts.cycle →
    ∀ i, i ≠ id → s.timeouts.target i = 0
  /-- A timer is reached iff its delay has elapsed, or it does not run. -/
  reached : ∀ id, s.timeouts.reached id = true ↔
    ∀ a, s.armed id = some a → a.delay - 24 ≤ a.elapsed

/-- Targets, counter and elapsed cycles. -/
structure Inv (s : State) : Prop where
  counts : s.timeouts.Counts
  idle : ∀ i, s.timeouts.target i = 0 ↔ s.armed i = none
  armed : ∀ i a, s.armed i = some a →
    (s.timeouts.target i).toNat + a.elapsed = s.timeouts.cycle.toNat + (a.delay - 24)

section Calls

variable {s : State} {id : TimeoutId} {deltaCycles : UInt} {d : ℕ}

/-- The target of a valid call. -/
theorem set_target (h : s.timeouts.Counts) (hvalid : Valid s (.set id deltaCycles)) :
    ((s.timeouts.set id deltaCycles).target id).toNat =
      (s.timeouts.set id deltaCycles).cycle.toNat + (deltaCycles.toNat - 24) := by
  rw [Timeouts.set_target_self, BitVec.toNat_add, Timeouts.toNat_netDelay, Nat.mod_eq_of_lt]
  have hdelta := deltaCycles.isLt
  rcases Timeouts.set_cycle_of_counts id deltaCycles h with ⟨-, hc⟩ | ⟨hr, hc⟩
  · rw [hc, Timeouts.toNat_zero]
    omega
  · rw [hc]
    exact hvalid hr

theorem set_target_ne_zero_iff (h : s.timeouts.Counts) (hvalid : Valid s (.set id deltaCycles)) :
    (s.timeouts.set id deltaCycles).target id ≠ 0 ↔ Careful s (.set id deltaCycles) := by
  have htarget := set_target h hvalid
  rw [ne_eq, ← BitVec.toNat_inj, htarget, Timeouts.toNat_zero, Careful, ne_eq,
    ← BitVec.toNat_inj, Timeouts.toNat_zero]
  rcases Timeouts.set_cycle_of_counts id deltaCycles h with ⟨ho, hc⟩ | ⟨hr, hc⟩
  · have hnone : ¬∃ i, i ≠ id ∧ s.timeouts.target i ≠ 0 := fun ⟨i, hi, hne⟩ => hne (ho i hi)
    rw [hc, Timeouts.toNat_zero]
    simp only [hnone, false_and, or_false]
    omega
  · rw [hc]
    simp only [hr, true_and]
    omega

theorem Inv.initial (h : Initial s) : Inv s := by
  obtain ⟨hactive, htarget, harmed⟩ := h
  refine ⟨?_, fun i => iff_of_true (htarget i) (harmed i), fun i a ha => ?_⟩
  · rw [Timeouts.Counts, hactive, Timeouts.running_eq_zero.mpr htarget]
    rfl
  · rw [harmed i] at ha
    cases ha

/-- A timer is cleaned up. -/
theorem Inv.cleanup (h : Inv s) :
    Inv ⟨s.timeouts.cleanup id, Function.update s.armed id none⟩ := by
  refine ⟨h.counts.cleanup, fun i => ?_, fun i a ha => ?_⟩
  · by_cases hi : i = id
    · rw [hi]
      exact iff_of_true Timeouts.cleanup_target_self (Function.update_self ..)
    · dsimp only
      rw [Timeouts.cleanup_target_of_ne hi, Function.update_of_ne hi]
      exact h.idle i
  · by_cases hi : i = id
    · dsimp only at ha
      rw [hi, Function.update_self] at ha
      cases ha
    · dsimp only at ha ⊢
      rw [Function.update_of_ne hi] at ha
      rw [Timeouts.cleanup_target_of_ne hi, Timeouts.cleanup_cycle]
      exact h.armed i a ha

/-- A timer is set, with a target that is not zero. -/
theorem Inv.set (h : Inv s) (hvalid : Valid s (.set id deltaCycles))
    (hcareful : Careful s (.set id deltaCycles)) : Inv (step s (.set id deltaCycles)) := by
  have htarget := (set_target_ne_zero_iff h.counts hvalid).mpr hcareful
  refine ⟨(Timeouts.counts_set_iff h.counts).mpr htarget, fun i => ?_, fun i a ha => ?_⟩
  · dsimp only [step]
    by_cases hi : i = id
    · rw [hi, Function.update_self]
      exact iff_of_false htarget (Option.some_ne_none _)
    · rw [Timeouts.set_target_of_ne hi, Function.update_of_ne hi]
      exact h.idle i
  · dsimp only [step] at ha ⊢
    by_cases hi : i = id
    · rw [hi, Function.update_self] at ha
      obtain rfl := Option.some.inj ha
      rw [hi]
      exact set_target h.counts hvalid
    · -- another timer runs, so the counter is not reset
      rw [Function.update_of_ne hi] at ha
      have hrun : s.timeouts.target i ≠ 0 := fun hidle => by
        rw [(h.idle i).mp hidle] at ha
        cases ha
      have hcycle : (s.timeouts.set id deltaCycles).cycle = s.timeouts.cycle := by
        rcases Timeouts.set_cycle_of_counts id deltaCycles h.counts with
          ⟨ho, -⟩ | ⟨-, hc⟩
        · exact absurd (ho i hi) hrun
        · exact hc
      rw [Timeouts.set_target_of_ne hi, hcycle]
      exact h.armed i a ha

theorem Inv.elapse (h : Inv s) (hvalid : Valid s (.elapse d)) : Inv (step s (.elapse d)) := by
  refine ⟨h.counts, fun i => ?_, fun i a ha => ?_⟩
  · exact (h.idle i).trans Option.map_eq_none_iff.symm
  · obtain ⟨b, hb, rfl⟩ := Option.map_eq_some_iff.mp ha
    have hrun : s.timeouts.running ≠ 0 := fun hzero => by
      rw [(h.idle i).mp (Timeouts.running_eq_zero.mp hzero i)] at hb
      cases hb
    have harmed := h.armed i b hb
    have hlt := hvalid hrun
    show (s.timeouts.target i).toNat + (b.elapsed + d) =
      (BitVec.ofNat 32 (min (s.timeouts.cycle.toNat + d) 0xffffffff)).toNat + (b.delay - 24)
    rw [BitVec.toNat_ofNat]
    omega

theorem Inv.step {a : Action} (h : Inv s) (hvalid : Valid s a) (hcareful : Careful s a) :
    Inv (step s a) := by
  cases a with
  | elapse d => exact h.elapse hvalid
  | set id deltaCycles => exact h.set hvalid hcareful
  | poll id =>
    rw [Timers.step, Timeouts.poll_eq]
    split
    · exact h.cleanup
    · exact h
  | cleanup id => exact h.cleanup

theorem Inv.kept (h : Inv s) : Kept s where
  active := h.counts
  reset id deltaCycles hreset := by
    rcases Timeouts.set_cycle_of_counts id deltaCycles h.counts with
      ⟨ho, -⟩ | ⟨-, hc⟩
    · exact ho
    · exact absurd hc hreset
  reached id := by
    rw [Timeouts.reached, Bool.not_eq_true', decide_eq_false_iff_not, BitVec.lt_def, not_lt]
    cases ha : s.armed id with
    | none =>
      rw [(h.idle id).mpr ha]
      exact iff_of_true (Nat.zero_le _) fun a ha => by cases ha
    | some a =>
      have harmed := h.armed id a ha
      simp only [Option.some.injEq, forall_eq']
      omega

end Calls

/-- In every state reached by careful calls the count, the counter and the answers are right, and
a call keeps this iff it is careful. -/
theorem kept_of_careful {s : State} (h : Reachable Initial CarefulStep s) :
    Kept s ∧ ∀ a, Valid s a → (Kept (step s a) ↔ Careful s a) := by
  have hinv : Inv s := by
    refine h.invariant (fun s => Inv.initial) (fun s t hs hstep => ?_)
    obtain ⟨a, hvalid, hcareful, rfl⟩ := hstep
    exact hs.step hvalid hcareful
  refine ⟨hinv.kept, fun a hvalid => ⟨fun hkept => ?_, fun hc => (hinv.step hvalid hc).kept⟩⟩
  cases a with
  | set id deltaCycles =>
    rw [← set_target_ne_zero_iff hinv.counts hvalid, ← Timeouts.counts_set_iff hinv.counts]
    exact hkept.active
  | elapse d => trivial
  | poll id => trivial
  | cleanup id => trivial

end PruU.Timers

end QUniBone
