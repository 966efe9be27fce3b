import QUniBone.Lib.Transition
import Mathlib.Algebra.Order.Group.Unbundled.Int

/-!
# RK05

`rk05_c` as a step relation. The worker of the drive counts a seek down and tells the controller
that it is over. It is one thread among others: the RK11 calls `seek()`, `drive_reset()`,
`read_sector()` and `write_sector()`, and INIT comes at any time.

A step of the worker is one access to what the threads share. A sector transfer has two steps, with
its delay of 10 ms between them. The other calls are one step each. Of the controller, `_ide` and
what `on_drive_status_changed()` does with the end of a seek are here.

* `State`, `Event`, `next`: the drive and its worker.
* `Careful`: the moments at which a request or a transfer does no harm.
* `SeekCompletes`: what should come of a request.
* `seek_completes`: what comes of it, in runs of careful events.
-/

namespace QUniBone.RK05

open Transition

/-- `geometry.cylinder_count` -/
abbrev cylinderCount : ℕ := 203

/-- Where the worker is -/
inductive Worker
  /-- `if (_seek_count > 0)` -/
  | test
  /-- move to the next sector -/
  | turn
  /-- `_seek_count -= 25`, which reads the counter... -/
  | load
  /-- ... and writes it -/
  | store (count : ℤ)
  /-- `if (_seek_count < 0)` -/
  | check
  /-- `_scp = true` -/
  | post
  /-- `on_drive_status_changed()` -/
  | report
  /-- `_rwsrdy = true` -/
  | ready
  deriving DecidableEq

/-- The drive. Whether an image is in it does not change. -/
structure State where
  unitno : ℕ
  imageIsOpen : Bool
  currentCylinder : Fin cylinderCount
  seekCount : ℤ
  sectorCount : ℕ
  rwsrdy : Bool
  sok : Bool
  sin : Bool
  dru : Bool
  dpl : Bool
  scp : Bool
  worker : Worker
  /-- between the two steps of a transfer -/
  transferring : Bool
  /-- `_ide` of the controller -/
  ide : Bool
  /-- Search Complete as the controller got it, the last one at the end: the drive number of the
  interrupt, if there was one -/
  reports : List (Option ℕ)

/-- What the other threads do, and a step of the worker -/
inductive Event
  | work
  | seek (cylinder : Fin cylinderCount)
  | driveReset
  | init
  | beginTransfer (cylinder : Fin cylinderCount)
  | endTransfer
  | interruptEnable (ide : Bool)
  deriving DecidableEq

namespace State

/-- After the constructor -/
def initial (unitno : ℕ) (imageIsOpen : Bool) : State where
  unitno := unitno
  imageIsOpen := imageIsOpen
  currentCylinder := 0
  seekCount := 0
  sectorCount := 0
  rwsrdy := true
  sok := false
  sin := false
  dru := false
  dpl := false
  scp := false
  worker := .test
  transferring := false
  ide := false
  reports := []

/-- `on_drive_status_changed()`. `get_search_complete()` clears `_scp`. -/
def statusChanged (s : State) : State :=
  { s with
    scp := false
    reports :=
      if s.scp then s.reports ++ [if s.ide then some s.unitno else none] else s.reports }

/-- `seek()` -/
def seek (s : State) (cylinder : Fin cylinderCount) : State :=
  let count : ℤ := ((s.currentCylinder : ℤ) - (cylinder : ℤ)).natAbs + 1
  let s := { s with seekCount := count, currentCylinder := cylinder }
  if count > 0 then { s with rwsrdy := false, scp := false }.statusChanged
  else { s with rwsrdy := true, scp := true }.statusChanged

/-- `drive_reset()` -/
def driveReset (s : State) : State :=
  { s with sin := false, dru := false, dpl := false }.statusChanged.seek 0

/-- A step of `worker()` -/
def work (s : State) : State :=
  match s.worker with
  | .test => { s with worker := if s.seekCount > 0 then .load else .turn }
  | .turn =>
    let s := { s with worker := .test }
    if s.imageIsOpen then
      { s with sectorCount := (s.sectorCount + 1) % 12, sok := true }.statusChanged
    else s
  | .load => { s with worker := .store s.seekCount }
  | .store count => { s with seekCount := count - 25, worker := .check }
  | .check => { s with worker := if s.seekCount < 0 then .post else .test }
  | .post => { s with scp := true, worker := .report }
  | .report => { s with worker := .ready }.statusChanged
  | .ready => { s with rwsrdy := true, worker := .test }

/-- `read_sector()` or `write_sector()` until the delay -/
def beginTransfer (s : State) (cylinder : Fin cylinderCount) : State :=
  { s with
    currentCylinder := cylinder
    scp := false
    rwsrdy := false
    transferring := true }.statusChanged

def endTransfer (s : State) : State :=
  { s with rwsrdy := true, transferring := false }.statusChanged

end State

/-- One step. The thread of the controller does one thing at a time, INIT is in another thread and
resets the controller first. -/
def next (s : State) : Event → Option State
  | .work => some s.work
  | .seek cylinder => if s.transferring then none else some (s.seek cylinder)
  | .driveReset => if s.transferring then none else some s.driveReset
  | .init => some { s with ide := false }.driveReset
  | .beginTransfer cylinder => if s.transferring then none else some (s.beginTransfer cylinder)
  | .endTransfer => if s.transferring then some s.endTransfer else none
  | .interruptEnable ide => some { s with ide := ide }

/-! ## Requests -/

/-- Where a request seeks to -/
def Event.destination : Event → Option (Fin cylinderCount)
  | .seek cylinder => some cylinder
  | .driveReset | .init => some 0
  | .work | .beginTransfer _ | .endTransfer | .interruptEnable _ => none

/-- The worker does not work on the counter or on the end of the last seek. -/
def Worker.quiet : Worker → Bool
  | .test | .turn | .load | .check => true
  | .store _ | .post | .report | .ready => false

/-- A request lets the worker alone, and the counter will not stop at zero. -/
def SeekCareful (s : State) (cylinder : Fin cylinderCount) : Prop :=
  s.worker.quiet = true ∧ (((s.currentCylinder : ℤ) - (cylinder : ℤ)).natAbs + 1) % 25 ≠ 0

instance decidableSeekCareful (s : State) (cylinder : Fin cylinderCount) :
    Decidable (SeekCareful s cylinder) := inferInstanceAs (Decidable (_ ∧ _))

/-- Neither a request nor a transfer gets between the worker's steps at the end of a seek. -/
def Careful (s : State) : Event → Prop
  | .seek cylinder => SeekCareful s cylinder
  | .driveReset | .init => SeekCareful s 0
  | .beginTransfer _ => ¬(s.worker = .report ∧ s.scp = true)
  | .work | .endTransfer | .interruptEnable _ => True

instance decidableCareful (s : State) : (e : Event) → Decidable (Careful s e)
  | .seek cylinder => decidableSeekCareful s cylinder
  | .driveReset | .init => decidableSeekCareful s 0
  | .beginTransfer _ => inferInstanceAs (Decidable (¬(_ ∧ _)))
  | .work | .endTransfer | .interruptEnable _ => instDecidableTrue

/-- How many steps of the worker are among some events -/
def workSteps (es : List Event) : ℕ := es.count .work

/-- What should come of a request after which the state is `s`, whatever events follow it before the
next one: the seek is over after finitely many steps of the worker. -/
structure SeekCompletes (step : State → Event → Option State) (s : State) : Prop where
  /-- until then nothing is reported, and the drive is not ready unless a transfer made it so -/
  before : ∀ es t, (∀ e ∈ es, e.destination = none) → run step s es = some t → 0 < t.seekCount →
    t.reports = s.reports ∧ (.endTransfer ∉ es → t.rwsrdy = false)
  /-- it is reported once at most -/
  once : ∀ es t, (∀ e ∈ es, e.destination = none) → run step s es = some t →
    t.reports = s.reports ∨ ∃ r, t.reports = s.reports ++ [r]
  /-- at last it is reported, and the drive is ready or in a transfer -/
  finishes : ∃ n, ∀ es t, (∀ e ∈ es, e.destination = none) → run step s es = some t →
    n ≤ workSteps es → (∃ r, t.reports = s.reports ++ [r]) ∧
      (t.rwsrdy = true ∨ t.transferring = true)
  /-- with an interrupt if interrupts are enabled -/
  interrupt : ∀ es t r, (∀ e ∈ es, e.destination = none ∧ ∀ b, e ≠ .interruptEnable b) →
    run step s es = some t → t.reports = s.reports ++ [r] →
    r = if s.ide then some s.unitno else none

/-! ## Counting down -/

namespace State

theorem statusChanged_reports {s : State} (h : s.scp = false) :
    s.statusChanged.reports = s.reports := if_neg (by simp [h])

theorem statusChanged_reports_of_scp {s : State} (h : s.scp = true) :
    s.statusChanged.reports = s.reports ++ [if s.ide then some s.unitno else none] := if_pos h

/-- The seek is under way. -/
structure Counting (s : State) : Prop where
  pos : 0 < s.seekCount
  odd : s.seekCount % 25 ≠ 0
  scp : s.scp = false

/-- How often the worker still counts down -/
def turns (s : State) : ℕ := (s.seekCount.toNat + 24) / 25

end State

/-- Where a seek is: the number of steps of the worker that are left, and whether its end is
reported. -/
inductive Stage (s : State) : Bool → ℕ → Prop
  | test : s.Counting → s.worker = .test → Stage s false (4 * s.turns + 3)
  | turn : s.Counting → s.worker = .turn → Stage s false (4 * s.turns + 4)
  | load : s.Counting → s.worker = .load → Stage s false (4 * s.turns + 2)
  | store : s.Counting → s.worker = .store s.seekCount → Stage s false (4 * s.turns + 1)
  | check : s.Counting → s.worker = .check → Stage s false (4 * s.turns + 4)
  | expired : s.seekCount < 0 → s.scp = false → s.worker = .check → Stage s false 4
  | post : s.seekCount < 0 → s.scp = false → s.worker = .post → Stage s false 3
  | report : s.seekCount < 0 → s.scp = true → s.worker = .report → Stage s false 2
  | reported : s.seekCount < 0 → s.scp = false → s.worker = .report → Stage s true 2
  | ready : s.seekCount < 0 → s.scp = false → s.worker = .ready → Stage s true 1
  | done : s.seekCount < 0 → s.scp = false → (s.worker = .test ∨ s.worker = .turn) →
      (s.rwsrdy = true ∨ s.transferring = true) → Stage s true 0

namespace Stage

variable {s t : State} {b : Bool} {n : ℕ}

/-- What does not touch the counter, the flag and the worker leaves the seek where it is. -/
theorem congr (h : Stage s b n) (hcount : t.seekCount = s.seekCount) (hscp : t.scp = s.scp)
    (hworker : t.worker = s.worker)
    (hready : s.rwsrdy = true ∨ s.transferring = true → t.rwsrdy = true ∨ t.transferring = true) :
    Stage t b n := by
  have hturns : t.turns = s.turns := by rw [State.turns, State.turns, hcount]
  have hcounting : s.Counting → t.Counting := fun h =>
    ⟨by rw [hcount]; exact h.pos, by rw [hcount]; exact h.odd, hscp.trans h.scp⟩
  cases h with
  | test h hw => exact hturns ▸ .test (hcounting h) (hworker.trans hw)
  | turn h hw => exact hturns ▸ .turn (hcounting h) (hworker.trans hw)
  | load h hw => exact hturns ▸ .load (hcounting h) (hworker.trans hw)
  | store h hw =>
    refine hturns ▸ .store (hcounting h) ?_
    rw [hworker, hw, hcount]
  | check h hw => exact hturns ▸ .check (hcounting h) (hworker.trans hw)
  | expired h hs hw => exact .expired (hcount ▸ h) (hscp.trans hs) (hworker.trans hw)
  | post h hs hw => exact .post (hcount ▸ h) (hscp.trans hs) (hworker.trans hw)
  | report h hs hw => exact .report (hcount ▸ h) (hscp.trans hs) (hworker.trans hw)
  | reported h hs hw => exact .reported (hcount ▸ h) (hscp.trans hs) (hworker.trans hw)
  | ready h hs hw => exact .ready (hcount ▸ h) (hscp.trans hs) (hworker.trans hw)
  | done h hs hw hr => exact .done (hcount ▸ h) (hscp.trans hs) (hworker ▸ hw) (hready hr)

/-- While the seek is under way its end is not reported. -/
theorem not_pos (h : Stage s true n) : ¬0 < s.seekCount := by
  cases h <;> omega

/-- At last it is reported, and the drive is ready or in a transfer. -/
theorem of_zero (h : Stage s b 0) :
    b = true ∧ (s.rwsrdy = true ∨ s.transferring = true) := by
  generalize hn : (0 : ℕ) = m at h
  cases h with
  | done _ _ _ hr => exact ⟨rfl, hr⟩
  | _ => omega

end Stage

/-- What events do: nothing is reported, or the end of this seek, and only the end of a transfer
makes the drive ready before. -/
structure Progress (s : State) (es : List Event) (t : State) (b b' : Bool) : Prop where
  mono : b = true → b' = true
  kept : b' = b → t.reports = s.reports
  added : b' ≠ b → ∃ r, t.reports = s.reports ++ [r] ∧
    ((∀ i, .interruptEnable i ∉ es) → r = if s.ide then some s.unitno else none)
  unitno : t.unitno = s.unitno
  ide : (∀ i, .interruptEnable i ∉ es) → t.ide = s.ide
  notReady : b' = false → .endTransfer ∉ es → s.rwsrdy = false → t.rwsrdy = false

theorem Progress.refl (s : State) (b : Bool) : Progress s [] s b b :=
  ⟨id, fun _ => rfl, fun hne => absurd rfl hne, rfl, fun _ => rfl, fun _ _ h => h⟩

theorem Progress.trans {s u t : State} {es es' : List Event} {b c d : Bool}
    (h : Progress s es u b c) (h' : Progress u es' t c d) : Progress s (es ++ es') t b d where
  mono hb := h'.mono (h.mono hb)
  kept heq := by
    have hc : c = b := by
      cases hb : b with
      | true => exact h.mono hb
      | false =>
        by_contra hne
        have htrue := h'.mono (by simpa using hne)
        rw [heq, hb] at htrue
        cases htrue
    rw [h'.kept (by rw [heq, hc]), h.kept hc]
  added hne := by
    by_cases hc : c = b
    · obtain ⟨r, hr, hint⟩ := h'.added fun hd => hne (hd.trans hc)
      refine ⟨r, by rw [hr, h.kept hc], fun hno => ?_⟩
      rw [hint fun i hi => hno i (List.mem_append_right _ hi), h.unitno,
        h.ide fun i hi => hno i (List.mem_append_left _ hi)]
    · obtain ⟨r, hr, hint⟩ := h.added hc
      refine ⟨r, ?_, fun hno => hint fun i hi => hno i (List.mem_append_left _ hi)⟩
      -- it is not reported twice
      have hd : d = c := by
        cases hb : b with
        | true => exact absurd ((h.mono hb).trans hb.symm) hc
        | false =>
          have htrue : c = true := by simpa [hb] using hc
          exact (h'.mono htrue).trans htrue.symm
      rw [h'.kept hd, hr]
  unitno := h'.unitno.trans h.unitno
  ide hno := (h'.ide fun i hi => hno i (List.mem_append_right _ hi)).trans
    (h.ide fun i hi => hno i (List.mem_append_left _ hi))
  notReady hd hno hready := by
    have hc : c = false := by
      by_contra hne
      have htrue := h'.mono (by simpa using hne)
      rw [hd] at htrue
      cases htrue
    exact h'.notReady hd (fun hi => hno (List.mem_append_right _ hi))
      (h.notReady hc (fun hi => hno (List.mem_append_left _ hi)) hready)

/-! ## One step -/

section Step

variable {s t : State} {e : Event} {b : Bool} {n : ℕ}

/-- What the worker's step does to the reports -/
inductive Reported (s t : State) : Bool → Bool → Prop
  | refl (b : Bool) : t.reports = s.reports → Reported s t b b
  | now : t.reports = s.reports ++ [if s.ide then some s.unitno else none] → Reported s t false true

/-- The worker gets on by one step. -/
theorem stage_work (h : Stage s b n) :
    ∃ b', Stage s.work b' (n - 1) ∧ Reported s s.work b b' := by
  cases h with
  | test h hw =>
    have hwork : s.work = { s with worker := .load } := by
      unfold State.work
      simp [hw, h.pos]
    rw [hwork]
    exact ⟨false, .load ⟨h.pos, h.odd, h.scp⟩ rfl, .refl _ rfl⟩
  | turn h hw =>
    have hpos := h.pos
    unfold State.work
    simp only [hw]
    split
    · exact ⟨false, .test ⟨h.pos, h.odd, rfl⟩ rfl, .refl _ (State.statusChanged_reports h.scp)⟩
    · exact ⟨false, .test ⟨h.pos, h.odd, h.scp⟩ rfl, .refl _ rfl⟩
  | load h hw =>
    have hwork : s.work = { s with worker := .store s.seekCount } := by
      unfold State.work
      simp [hw]
    rw [hwork]
    exact ⟨false, .store ⟨h.pos, h.odd, h.scp⟩ rfl, .refl _ rfl⟩
  | store h hw =>
    have hwork : s.work = { s with seekCount := s.seekCount - 25, worker := .check } := by
      unfold State.work
      simp [hw]
    have hpos := h.pos
    have hodd := h.odd
    rw [hwork]
    -- the counter is not a multiple of 25, so it does not come to zero
    rcases Int.lt_trichotomy (s.seekCount - 25) 0 with hneg | hzero | hmore
    · have hturns : 4 * s.turns + 1 - 1 = 4 := by
        unfold State.turns
        omega
      rw [hturns]
      exact ⟨false, .expired hneg h.scp rfl, .refl _ rfl⟩
    · omega
    · refine ⟨false, ?_, .refl _ rfl⟩
      let t : State := { s with seekCount := s.seekCount - 25, worker := .check }
      have hturns : 4 * s.turns + 1 - 1 = 4 * t.turns + 4 := by
        show 4 * ((s.seekCount.toNat + 24) / 25) + 1 - 1 =
          4 * (((s.seekCount - 25).toNat + 24) / 25) + 4
        omega
      rw [hturns]
      refine .check ⟨hmore, ?_, h.scp⟩ rfl
      show (s.seekCount - 25) % 25 ≠ 0
      omega
  | check h hw =>
    have hpos := h.pos
    have hwork : s.work = { s with worker := .test } := by
      unfold State.work
      simp only [hw]
      rw [if_neg (by omega)]
    rw [hwork]
    exact ⟨false, .test ⟨h.pos, h.odd, h.scp⟩ rfl, .refl _ rfl⟩
  | expired h hs hw =>
    have hwork : s.work = { s with worker := .post } := by
      unfold State.work
      simp [hw, h]
    rw [hwork]
    exact ⟨false, .post h hs rfl, .refl _ rfl⟩
  | post h hs hw =>
    have hwork : s.work = { s with scp := true, worker := .report } := by
      unfold State.work
      simp [hw]
    rw [hwork]
    exact ⟨false, .report h rfl rfl, .refl _ rfl⟩
  | report h hs hw =>
    have hwork : s.work = { s with worker := .ready }.statusChanged := by
      unfold State.work
      simp [hw]
    rw [hwork]
    exact ⟨true, .ready h rfl rfl, .now (State.statusChanged_reports_of_scp hs)⟩
  | reported h hs hw =>
    have hwork : s.work = { s with worker := .ready }.statusChanged := by
      unfold State.work
      simp [hw]
    rw [hwork]
    exact ⟨true, .ready h rfl rfl, .refl _ (State.statusChanged_reports hs)⟩
  | ready h hs hw =>
    have hwork : s.work = { s with rwsrdy := true, worker := .test } := by
      unfold State.work
      simp [hw]
    rw [hwork]
    exact ⟨true, .done h hs (Or.inl rfl) (Or.inl rfl), .refl _ rfl⟩
  | done h hs hw hr =>
    rcases hw with hw | hw
    · have hwork : s.work = { s with worker := .turn } := by
        unfold State.work
        simp only [hw]
        rw [if_neg (by omega)]
      rw [hwork]
      exact ⟨true, .done h hs (Or.inr rfl) hr, .refl _ rfl⟩
    · unfold State.work
      simp only [hw]
      split
      · exact ⟨true, .done h rfl (Or.inl rfl) hr, .refl _ (State.statusChanged_reports hs)⟩
      · exact ⟨true, .done h hs (Or.inl rfl) hr, .refl _ rfl⟩

/-- A step that leaves drive number and interrupts alone -/
theorem Reported.progress {b' : Bool} (h : Reported s t b b') (hunitno : t.unitno = s.unitno)
    (hide : (∀ i, .interruptEnable i ∉ [e]) → t.ide = s.ide)
    (hready : b' = false → .endTransfer ∉ [e] → s.rwsrdy = false → t.rwsrdy = false) :
    Progress s [e] t b b' := by
  cases h with
  | refl _ h => exact ⟨id, fun _ => h, fun hne => absurd rfl hne, hunitno, hide, hready⟩
  | now h =>
    refine ⟨fun _ => rfl, ?_, fun _ => ⟨_, h, fun _ => rfl⟩, hunitno, hide, hready⟩
    intro heq
    cases heq

theorem work_unitno (s : State) : s.work.unitno = s.unitno := by
  unfold State.work
  cases s.worker with
  | turn =>
    simp only
    split <;> rfl
  | _ => rfl

theorem work_ide (s : State) : s.work.ide = s.ide := by
  unfold State.work
  cases s.worker with
  | turn =>
    simp only
    split <;> rfl
  | _ => rfl

theorem work_rwsrdy (h : s.worker ≠ .ready) : s.work.rwsrdy = s.rwsrdy := by
  unfold State.work
  cases hw : s.worker with
  | turn =>
    simp only
    split <;> rfl
  | ready => exact absurd hw h
  | _ => rfl

theorem stage_next (h : Stage s b n) (he : e.destination = none) (hcareful : Careful s e)
    (hnext : next s e = some t) :
    ∃ b', Stage t b' (n - workSteps [e]) ∧ Progress s [e] t b b' := by
  cases e with
  | work =>
    obtain rfl := Option.some.inj hnext
    obtain ⟨b', hstage, hreported⟩ := stage_work h
    refine ⟨b', hstage, hreported.progress (work_unitno s) (fun _ => work_ide s) ?_⟩
    intro hb' _ hready
    rw [work_rwsrdy, hready]
    intro hw
    cases h with
    | ready => cases hreported; cases hb'
    | done _ _ hw' _ =>
      rcases hw' with hw' | hw' <;> rw [hw] at hw' <;> cases hw'
    | _ => simp_all
  | seek c => cases he
  | driveReset => cases he
  | init => cases he
  | beginTransfer c =>
    have hcareful : ¬(s.worker = .report ∧ s.scp = true) := hcareful
    have hscp : s.scp = false := by
      cases h with
      | test h | turn h | load h | store h | check h => exact h.scp
      | report _ hs hw => exact absurd ⟨hw, hs⟩ hcareful
      | _ => assumption
    have hnext : (if s.transferring then none else some (s.beginTransfer c)) = some t := hnext
    split at hnext
    · cases hnext
    · obtain rfl := Option.some.inj hnext
      exact ⟨b, h.congr rfl hscp.symm rfl fun _ => Or.inr rfl,
        Reported.progress (.refl b (State.statusChanged_reports rfl)) rfl (fun _ => rfl)
          fun _ _ _ => rfl⟩
  | endTransfer =>
    have hnext : (if s.transferring then some s.endTransfer else none) = some t := hnext
    split at hnext
    · obtain rfl := Option.some.inj hnext
      cases hscp : s.scp with
      | false =>
        exact ⟨b, h.congr rfl hscp.symm rfl fun _ => Or.inl rfl,
          Reported.progress (.refl b (State.statusChanged_reports hscp)) rfl (fun _ => rfl)
            fun _ hno => absurd (List.mem_singleton.mpr rfl) hno⟩
      | true =>
        -- the controller looks at the flag before the worker tells
        cases h with
        | report h hs hw =>
          exact ⟨true, .reported h rfl hw,
            Reported.progress (.now (State.statusChanged_reports_of_scp hs)) rfl (fun _ => rfl)
              fun _ hno => absurd (List.mem_singleton.mpr rfl) hno⟩
        | test h | turn h | load h | store h | check h =>
          have hfalse := h.scp
          rw [hscp] at hfalse
          cases hfalse
        | expired _ hs | post _ hs | reported _ hs | ready _ hs | done _ hs =>
          rw [hscp] at hs
          cases hs
    · cases hnext
  | interruptEnable i =>
    obtain rfl := Option.some.inj hnext
    exact ⟨b, h.congr rfl rfl rfl id,
      Reported.progress (.refl b rfl) rfl (fun hno => absurd (List.mem_singleton.mpr rfl) (hno i))
        fun _ _ hready => hready⟩

end Step

/-! ## Runs -/

section Runs

variable {s t : State} {es : List Event} {b : Bool} {n : ℕ}

theorem workSteps_cons (e : Event) (es : List Event) :
    workSteps (e :: es) = workSteps [e] + workSteps es := by
  show ([e] ++ es).count .work = _
  exact List.count_append

/-- Between two requests a seek gets on with every step of the worker, whatever else happens. -/
theorem stage_run (h : Stage s b n) (hes : ∀ e ∈ es, e.destination = none)
    (hrun : run (guarded Careful next) s es = some t) :
    ∃ b', Stage t b' (n - workSteps es) ∧ Progress s es t b b' := by
  induction es generalizing s b n with
  | nil =>
    obtain rfl := Option.some.inj hrun
    exact ⟨b, h, .refl s b⟩
  | cons e es ih =>
    obtain ⟨u, hu, hrest⟩ := Option.bind_eq_some_iff.mp hrun
    have ⟨hcareful, hnext⟩ := guarded_eq_some.mp hu
    obtain ⟨c, hc, hprogress⟩ := stage_next h (hes e List.mem_cons_self) hcareful hnext
    obtain ⟨d, hd, hrest⟩ := ih hc (fun e he => hes e (List.mem_cons_of_mem _ he)) hrest
    refine ⟨d, ?_, hprogress.trans hrest⟩
    rw [workSteps_cons, Nat.sub_add_eq]
    exact hd

/-- A seek that is under way with the drive not ready completes. -/
theorem Stage.completes (h : Stage s false n) (hready : s.rwsrdy = false) :
    SeekCompletes (guarded Careful next) s where
  before es t hes hrun hpos := by
    obtain ⟨b, hstage, hprogress⟩ := stage_run h hes hrun
    cases b with
    | true => exact absurd hpos hstage.not_pos
    | false => exact ⟨hprogress.kept rfl, fun hno => hprogress.notReady rfl hno hready⟩
  once es t hes hrun := by
    obtain ⟨b, hstage, hprogress⟩ := stage_run h hes hrun
    cases b with
    | false => exact Or.inl (hprogress.kept rfl)
    | true =>
      obtain ⟨r, hr, _⟩ := hprogress.added (by simp)
      exact Or.inr ⟨r, hr⟩
  finishes := by
    refine ⟨n, fun es t hes hrun hn => ?_⟩
    obtain ⟨b, hstage, hprogress⟩ := stage_run h hes hrun
    rw [Nat.sub_eq_zero_of_le hn] at hstage
    obtain ⟨rfl, hend⟩ := hstage.of_zero
    obtain ⟨r, hr, _⟩ := hprogress.added (by simp)
    exact ⟨⟨r, hr⟩, hend⟩
  interrupt es t r hes hrun hr := by
    obtain ⟨b, hstage, hprogress⟩ := stage_run h (fun e he => (hes e he).1) hrun
    have hno : ∀ i, .interruptEnable i ∉ es := fun i hi => (hes _ hi).2 i rfl
    cases b with
    | false =>
      rw [hprogress.kept rfl] at hr
      simp at hr
    | true =>
      obtain ⟨r', hr', hint⟩ := hprogress.added (by simp)
      rw [hr'] at hr
      obtain rfl : r' = r := by simpa using hr
      exact hint hno

end Runs

/-! ## Requests -/

section Request

variable {s t : State} {e : Event} {c : Fin cylinderCount}

/-- The counter that a request sets -/
def seekDistance (s : State) (c : Fin cylinderCount) : ℤ :=
  ((s.currentCylinder : ℤ) - (c : ℤ)).natAbs + 1

theorem seek_eq (s : State) (c : Fin cylinderCount) :
    s.seek c = { s with
      seekCount := seekDistance s c
      currentCylinder := c
      rwsrdy := false
      scp := false } := by
  have hpos : ((((s.currentCylinder : ℤ) - (c : ℤ)).natAbs : ℤ) + 1) > 0 := by omega
  unfold State.seek
  simp only [if_pos hpos]
  rfl

/-- A careful request begins a seek. -/
theorem stage_seek (h : SeekCareful s c) : ∃ n, Stage (s.seek c) false n := by
  have hcounting : (s.seek c).Counting := by
    rw [seek_eq]
    refine ⟨?_, ?_, rfl⟩
    · show 0 < (((s.currentCylinder : ℤ) - (c : ℤ)).natAbs : ℤ) + 1
      omega
    · show ((((s.currentCylinder : ℤ) - (c : ℤ)).natAbs : ℤ) + 1) % 25 ≠ 0
      have hodd := h.2
      omega
  have hquiet := h.1
  have hsame : (s.seek c).worker = s.worker := by rw [seek_eq]
  cases hw : s.worker with
  | test => exact ⟨_, .test hcounting (hsame.trans hw)⟩
  | turn => exact ⟨_, .turn hcounting (hsame.trans hw)⟩
  | load => exact ⟨_, .load hcounting (hsame.trans hw)⟩
  | check => exact ⟨_, .check hcounting (hsame.trans hw)⟩
  | _ =>
    rw [hw] at hquiet
    cases hquiet

/-- Every request is a seek, of a drive with its worker and its heads where they were. -/
theorem request_eq (he : e.destination = some c) (hnext : next s e = some t) :
    ∃ u : State, t = u.seek c ∧ u.worker = s.worker ∧ u.currentCylinder = s.currentCylinder := by
  cases e with
  | seek c' =>
    obtain rfl := Option.some.inj he
    have hnext : (if s.transferring then none else some (s.seek c')) = some t := hnext
    split at hnext
    · cases hnext
    · exact ⟨s, (Option.some.inj hnext).symm, rfl, rfl⟩
  | driveReset =>
    obtain rfl := Option.some.inj he
    have hnext : (if s.transferring then none else some s.driveReset) = some t := hnext
    split at hnext
    · cases hnext
    · exact ⟨_, (Option.some.inj hnext).symm, rfl, rfl⟩
  | init =>
    obtain rfl := Option.some.inj he
    exact ⟨_, (Option.some.inj hnext).symm, rfl, rfl⟩
  | _ => cases he

theorem Careful.destination (h : Careful s e) (he : e.destination = some c) : SeekCareful s c := by
  cases e with
  | seek c' =>
    obtain rfl := Option.some.inj he
    exact h
  | driveReset | init =>
    obtain rfl := Option.some.inj he
    exact h
  | _ => cases he

end Request

/-- In runs of careful events every seek request completes. -/
theorem seek_completes {unitno : ℕ} {imageIsOpen : Bool} {es : List Event} {e : Event} {s : State}
    (he : e.destination ≠ none)
    (hrun : run (guarded Careful next) (.initial unitno imageIsOpen) (es ++ [e]) = some s) :
    SeekCompletes (guarded Careful next) s := by
  rw [run_append] at hrun
  obtain ⟨u, _, hlast⟩ := Option.bind_eq_some_iff.mp hrun
  obtain ⟨t, ht, hend⟩ := Option.bind_eq_some_iff.mp hlast
  obtain rfl := Option.some.inj hend
  have ⟨hcareful, hnext⟩ := guarded_eq_some.mp ht
  obtain ⟨c, hc⟩ := Option.ne_none_iff_exists'.mp he
  obtain ⟨v, rfl, hworker, hcylinder⟩ := request_eq hc hnext
  have hseek : SeekCareful v c := by
    unfold SeekCareful
    rw [hworker, hcylinder]
    exact hcareful.destination hc
  obtain ⟨n, hstage⟩ := stage_seek hseek
  exact hstage.completes (by rw [seek_eq])

/-- A seek to cylinder 100, a transfer while the worker counts, and a seek back -/
theorem seek_completes_back :
    ∃ s, SeekCompletes (guarded Careful next) s ∧ s.seekCount = 81 ∧ s.currentCylinder = 20 :=
  have hrun : ∃ s, run (guarded Careful next) (.initial 1 true)
      ([.seek 100, .work, .work, .beginTransfer 100, .work, .endTransfer, .work] ++ [.seek 20]) =
        some s ∧ s.seekCount = 81 ∧ s.currentCylinder = 20 := ⟨_, rfl, rfl, rfl⟩
  have ⟨s, hs, hcount, hcylinder⟩ := hrun
  ⟨s, seek_completes (by decide) hs, hcount, hcylinder⟩

/-! ## A seek that never ends

When the counter starts at a multiple of 25 it comes to zero, which is neither more nor less than
zero. -/

/-- The worker counts down to zero, or has. -/
structure Stalled (s : State) : Prop where
  nonneg : 0 ≤ s.seekCount
  even : s.seekCount % 25 = 0
  scp : s.scp = false
  worker : s.worker = .test ∨ s.worker = .turn ∨ s.worker = .check ∨
    0 < s.seekCount ∧ (s.worker = .load ∨ s.worker = .store s.seekCount)

theorem stalled_work {s : State} (h : Stalled s) :
    Stalled s.work ∧ s.work.reports = s.reports := by
  have hnonneg := h.nonneg
  have heven := h.even
  rcases h.worker with hw | hw | hw | ⟨hpos, hw | hw⟩
  · unfold State.work
    simp only [hw]
    split
    · exact ⟨⟨hnonneg, heven, h.scp, Or.inr (Or.inr (Or.inr ⟨‹_›, Or.inl rfl⟩))⟩, trivial⟩
    · exact ⟨⟨hnonneg, heven, h.scp, Or.inr (Or.inl rfl)⟩, trivial⟩
  · unfold State.work
    simp only [hw]
    split
    · exact ⟨⟨hnonneg, heven, rfl, Or.inl rfl⟩, State.statusChanged_reports h.scp⟩
    · exact ⟨⟨hnonneg, heven, h.scp, Or.inl rfl⟩, rfl⟩
  · unfold State.work
    simp only [hw]
    rw [if_neg (by omega)]
    exact ⟨⟨hnonneg, heven, h.scp, Or.inl rfl⟩, trivial⟩
  · unfold State.work
    simp only [hw]
    exact ⟨⟨hnonneg, heven, h.scp, Or.inr (Or.inr (Or.inr ⟨hpos, Or.inr rfl⟩))⟩, trivial⟩
  · unfold State.work
    simp only [hw]
    refine ⟨⟨?_, ?_, h.scp, Or.inr (Or.inr (Or.inl rfl))⟩, trivial⟩
    · show 0 ≤ s.seekCount - 25
      omega
    · show (s.seekCount - 25) % 25 = 0
      omega

/-- The worker never reports the end of such a seek. -/
theorem stalled_run {s : State} (h : Stalled s) (n : ℕ) :
    ∃ t, run next s (List.replicate n .work) = some t ∧ t.reports = s.reports := by
  induction n generalizing s with
  | zero => exact ⟨s, rfl, rfl⟩
  | succ n ih =>
    obtain ⟨hwork, hreports⟩ := stalled_work h
    obtain ⟨t, ht, hsame⟩ := ih hwork
    exact ⟨t, ht, hsame.trans hreports⟩

/-- A seek over 24 cylinders -/
theorem seek_stalls :
    ¬∀ (unitno : ℕ) (imageIsOpen : Bool) (es : List Event) (e : Event) (s : State),
      e.destination ≠ none → run next (.initial unitno imageIsOpen) (es ++ [e]) = some s →
        SeekCompletes next s := by
  intro h
  let s : State := (State.initial 0 true).seek 24
  have hstalled : Stalled s := ⟨by decide, by decide, rfl, Or.inl rfl⟩
  obtain ⟨n, hn⟩ := (h 0 true [] (.seek 24) s (by decide) rfl).finishes
  obtain ⟨t, ht, hreports⟩ := stalled_run hstalled n
  obtain ⟨⟨r, hr⟩, _⟩ := hn (List.replicate n .work) t
    (fun e he => by rw [List.eq_of_mem_replicate he]; rfl) ht (by simp [workSteps])
  rw [hreports] at hr
  simp at hr

end QUniBone.RK05
