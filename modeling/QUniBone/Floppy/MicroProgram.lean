import QUniBone.Floppy.MicroCpu
import QUniBone.Lib.Transition

/-!
# The microprogram runs in order

The log of the executed steps is compared with the program that was installed last. The worker
lets go of the mutex in two places, and the same signal ends both waits: `init()` in a transfer
wait ends the wait, and the old step moves the counter of the new program. Calls that keep away
from this are `Careful`.

* `Orderly`: what the log and the waits have to look like.
* `Progress`, `Handover`: the invariant, for the program and for the transfers.
* `orderly_of_careful`: all states of careful runs are orderly.
-/

namespace QUniBone.RX0102uCPU

variable {σ : Type*} [DecidableEq σ] {s t : State σ}

/-! ## The property -/

/-- Every program is executed step by step, and no signal is lost or taken for another one. -/
structure Orderly (s : State σ) : Prop where
  inOrder : s.executed <+: s.installed
  /-- The worker waits for a start when there is nothing left to do. -/
  started : s.worker = .startWait → s.aborts ≠ 0 ∨ s.executed = s.installed
  /-- A program is stopped once, and on an error of its own. -/
  stopped : s.aborts ≤ 1 ∧ (s.aborts ≠ 0 → s.ownError = true)
  /-- The worker waits for data in the last step that it has begun. -/
  transfers : s.worker.awaitsData = true ∨ s.worker = .transferWoken →
    ∃ cur, s.executed.getLast? = some cur ∧ cur.isTransfer = true
  /-- The signal for complete data is still to come. -/
  signalled : s.worker = .transferWait → s.transferred = true → ∃ o, s.host o = .signalling
  /-- Only complete data end the wait. -/
  woken : s.worker = .transferWoken → s.transferred = true
  kept : s.cutShort = false

/-! ## Steps of a run -/

/-- The worker is not yet started and the box has been powerless. -/
structure Initial (s : State σ) : Prop where
  worker : s.worker = .starting
  host : ∀ o, s.host o = .idle
  programSteps : s.programSteps = []
  installed : s.installed = []
  executed : s.executed = []
  aborts : s.aborts = 0
  request : s.signalTransferRequest = false
  error : s.ownError = true
  kept : s.cutShort = false

def AnyStep (s t : State σ) : Prop := ∃ a, step s a = some t

/-- A program is installed when the worker does not wait for data: by `init()` without an error
that is still set, by `go()` when the last program is complete. RXDB is accessed as a transfer
while the request is shown. The condition variable does not wake the worker by itself in a
transfer, nor after an error. -/
def Careful (s : State σ) : Action σ → Prop
  | .wake => s.worker ≠ .transferWait ∧ s.signalError = false
  | .read _ | .write _ _ => s.accepts = true → s.signalTransferRequest = true
  | .initLock _ => s.worker ≠ .transferWait ∧ s.worker ≠ .transferWoken ∧ s.signalError = false
  | .goLock _ _ _ => s.programComplete = true
  | _ => True

def CarefulStep (s t : State σ) : Prop := ∃ a, Careful s a ∧ step s a = some t

/-! ## The program -/

namespace Worker

/-- Where the worker can be after it has stopped a program. -/
def AfterAbort (error : Bool) : Worker → Prop
  | .top | .startWait => True
  | .startWoken | .checking => error = false
  | _ => False

@[simp] theorem inStep_signalled (w : Worker) : w.signalled.inStep = w.inStep := by
  cases w <;> rfl

theorem signalled_ne_startWait (w : Worker) : w.signalled ≠ .startWait := by cases w <;> nofun

theorem AfterAbort.not_inStep {e : Bool} {w : Worker} (h : w.AfterAbort e) : w.inStep = false := by
  cases w <;> first | rfl | exact h.elim

end Worker

/-- The number of steps that were begun. -/
def State.reached (s : State σ) : ℕ := s.programCounter + if s.worker.inStep then 1 else 0

structure Progress (s : State σ) : Prop where
  running : s.aborts = 0 →
    s.programSteps = s.installed ∧ s.executed = s.installed.take s.reached
  aborted : s.aborts ≠ 0 → s.aborts = 1 ∧ s.programSteps = [] ∧ s.executed <+: s.installed ∧
    s.ownError = true ∧ s.worker.AfterAbort s.signalError
  current : s.worker.inStep = true →
    ∃ cur, s.stepCurrent = some cur ∧ (s.worker ≠ .executed → cur.isTransfer = true)
  startWait : s.worker = .startWait → s.programComplete = true
  error : s.signalError = true → s.ownError = true
  kept : s.cutShort = false

/-- The program and its log are the same. -/
structure SameProgram (s t : State σ) : Prop where
  programSteps : t.programSteps = s.programSteps
  programCounter : t.programCounter = s.programCounter
  installed : t.installed = s.installed
  executed : t.executed = s.executed
  aborts : t.aborts = s.aborts
  cutShort : t.cutShort = s.cutShort

namespace SameProgram

omit [DecidableEq σ] in
theorem stepCurrent (h : SameProgram s t) : t.stepCurrent = s.stepCurrent := by
  rw [State.stepCurrent, State.stepCurrent, h.programSteps, h.programCounter]

omit [DecidableEq σ] in
theorem programComplete (h : SameProgram s t) : t.programComplete = s.programComplete := by
  rw [State.programComplete, State.programComplete, h.stepCurrent]

end SameProgram

namespace Progress

omit [DecidableEq σ] in
theorem inOrder (h : Progress s) : s.executed <+: s.installed := by
  by_cases ha : s.aborts = 0
  · rw [(h.running ha).2]
    exact List.take_prefix _ _
  · exact (h.aborted ha).2.2.1

omit [DecidableEq σ] in
/-- A program that is complete has been executed or stopped. -/
theorem ended (h : Progress s) (hcomplete : s.programComplete = true) :
    s.aborts ≠ 0 ∨ s.executed = s.installed := by
  by_cases ha : s.aborts = 0
  · right
    obtain ⟨hprogram, hexecuted⟩ := h.running ha
    rw [State.programComplete, State.stepCurrent, hprogram, Option.isNone_iff_eq_none,
      List.getElem?_eq_none_iff] at hcomplete
    rw [hexecuted]
    apply List.take_of_length_le
    exact hcomplete.trans (Nat.le_add_right _ _)
  · exact .inl ha

omit [DecidableEq σ] in
/-- The worker moves, or an error is signalled, between two steps or inside of one. -/
theorem move (h : Progress s) (hsame : SameProgram s t)
    (hstep : t.worker.inStep = s.worker.inStep)
    (habort : s.aborts ≠ 0 → t.worker.AfterAbort t.signalError)
    (hcurrent : t.worker.inStep = true → t.worker ≠ .executed → s.worker ≠ .executed)
    (hwait : t.worker = .startWait → s.programComplete = true)
    (herror : t.signalError = true → t.ownError = true)
    (hown : s.ownError = true → t.ownError = true) : Progress t where
  running ha := by
    obtain ⟨hprogram, hexecuted⟩ := h.running (hsame.aborts ▸ ha)
    rw [hsame.programSteps, hsame.executed, hsame.installed]
    refine ⟨hprogram, ?_⟩
    rw [State.reached, hsame.programCounter, hstep]
    exact hexecuted
  aborted ha := by
    rw [hsame.aborts] at ha ⊢
    obtain ⟨hone, hprogram, horder, hcause, -⟩ := h.aborted ha
    rw [hsame.programSteps, hsame.executed, hsame.installed]
    exact ⟨hone, hprogram, horder, hown hcause, habort ha⟩
  current hin := by
    obtain ⟨cur, hcur, htransfer⟩ := h.current (hstep ▸ hin)
    exact ⟨cur, hsame.stepCurrent.trans hcur, fun hne => htransfer (hcurrent hin hne)⟩
  startWait hw := hsame.programComplete.trans (hwait hw)
  error := herror
  kept := hsame.cutShort.trans h.kept

omit [DecidableEq σ] in
theorem install {program : List Step} {error : Bool} (hkept : s.cutShort = false)
    (hstep : s.worker.inStep = false) (herror : s.signalError = true → error = true) :
    Progress (s.install program error) := by
  have hnot : (s.install program error).worker.inStep = false := by
    rw [← hstep]
    exact Worker.inStep_signalled _
  refine ⟨fun _ => ⟨rfl, ?_⟩, fun ha => absurd rfl ha, fun hin => ?_, fun hw => ?_, herror, hkept⟩
  · rw [State.reached, hnot]
    rfl
  · rw [hnot] at hin
    cases hin
  · exact absurd hw s.worker.signalled_ne_startWait

end Progress

/-! ## Execution of a step -/

/-- A step is executed, up to its wait for data. -/
structure Executed (s t : State σ) (cur : Step) : Prop where
  same : SameProgram { s with executed := s.executed ++ [cur] } t
  worker : t.worker = if cur.isTransfer then .transferring else .executed
  error : (s.signalError = true → s.ownError = true) → t.signalError = true → t.ownError = true
  host : t.host = s.host
  request : t.signalTransferRequest = true →
    cur.isTransfer = true ∨ s.signalTransferRequest = true
  transferred : cur.isTransfer = true → t.transferred = false

omit [DecidableEq σ] in
theorem executed_of_stepExecute {ok : Bool} {cur : Step}
    (h : { s with executed := s.executed ++ [cur] }.stepExecute ok cur = some t) :
    Executed s t cur := by
  cases cur
  case transferBufferWrite =>
    obtain rfl := Option.some.inj h
    exact ⟨⟨rfl, rfl, rfl, rfl, rfl, rfl⟩, rfl, id, rfl, fun _ => .inl rfl, fun _ => rfl⟩
  case transferBufferRead =>
    simp only [State.stepExecute, Option.ite_none_right_eq_some] at h
    obtain rfl := Option.some.inj h.2
    exact ⟨⟨rfl, rfl, rfl, rfl, rfl, rfl⟩, rfl, id, rfl, fun _ => .inl rfl, fun _ => rfl⟩
  case seek =>
    simp only [State.stepExecute, Option.ite_none_right_eq_some] at h
    obtain rfl := Option.some.inj h.2
    exact ⟨⟨rfl, rfl, rfl, rfl, rfl, rfl⟩, rfl, id, rfl, .inr, nofun⟩
  case headSettle | seekNext =>
    obtain rfl := Option.some.inj h
    exact ⟨⟨rfl, rfl, rfl, rfl, rfl, rfl⟩, rfl, id, rfl, .inr, nofun⟩
  case sectorWrite | sectorRead | formatTrack =>
    obtain rfl := Option.some.inj h
    refine ⟨⟨rfl, rfl, rfl, rfl, rfl, rfl⟩, rfl, fun _ herror => ?_, rfl, .inr, nofun⟩
    show (s.ownError || _) = true
    rw [Bool.or_eq_true]
    exact .inr herror
  case initDone | doneReadErrorCode | done =>
    obtain rfl := Option.some.inj h
    exact ⟨⟨rfl, rfl, rfl, rfl, rfl, rfl⟩, rfl, id, rfl, nofun, nofun⟩

omit [DecidableEq σ] in
theorem Progress.execute (h : Progress s) {cur : Step} (htop : s.worker = .top)
    (hcur : s.stepCurrent = some cur) (hexec : Executed s t cur) : Progress t := by
  have hstep : t.worker.inStep = true := by
    rw [hexec.worker]
    cases cur.isTransfer <;> rfl
  have hrunning : s.aborts = 0 := by
    by_contra ha
    rw [State.stepCurrent, (h.aborted ha).2.1] at hcur
    cases hcur
  refine ⟨fun _ => ?_, fun ha => absurd (hexec.same.aborts.trans hrunning) ha, fun _ => ?_,
    fun hw => ?_, hexec.error h.error, hexec.same.cutShort.trans h.kept⟩
  · -- The log is one step longer, and so is the part of the program that was begun.
    obtain ⟨hprogram, hexecuted⟩ := h.running hrunning
    rw [hexec.same.programSteps, hexec.same.installed, hexec.same.executed]
    refine ⟨hprogram, ?_⟩
    have hbegun : s.reached = s.programCounter := by rw [State.reached, htop]; rfl
    have hbegins : t.reached = s.programCounter + 1 := by
      rw [State.reached, hstep, hexec.same.programCounter]
      rfl
    rw [State.stepCurrent, hprogram] at hcur
    show s.executed ++ [cur] = s.installed.take t.reached
    rw [hbegins, List.take_add_one, hcur, hexecuted, hbegun]
    rfl
  · refine ⟨cur, hexec.same.stepCurrent.trans hcur, fun hne => ?_⟩
    by_contra hno
    rw [hexec.worker, if_neg hno] at hne
    exact hne rfl
  · rw [hw] at hstep
    cases hstep

omit [DecidableEq σ] in
/-- The counter moves on to the next step. -/
theorem Progress.next (h : Progress s) (hexec : s.worker = .executed)
    (hnext : t = { s with
      worker := .checking
      programCounter :=
        if s.programComplete then s.programCounter else s.programCounter + 1 }) :
    Progress t := by
  have hstep : s.worker.inStep = true := by rw [hexec]; rfl
  obtain ⟨cur, hcur, -⟩ := h.current hstep
  have hmore : s.programComplete = false := by rw [State.programComplete, hcur]; rfl
  obtain rfl := hnext
  refine ⟨fun ha => ?_, fun ha => ?_, nofun, nofun, h.error, h.kept⟩
  · obtain ⟨hprogram, hexecuted⟩ := h.running ha
    refine ⟨hprogram, hexecuted.trans ?_⟩
    rw [State.reached, State.reached, hstep, hmore]
    rfl
  · have hafter := (h.aborted ha).2.2.2.2.not_inStep
    rw [hstep] at hafter
    cases hafter

omit [DecidableEq σ] in
/-- An error stops the program. -/
theorem Progress.stop (h : Progress s) (hchecking : s.worker = .checking)
    (herror : s.signalError = true)
    (hstop : t = { s.stepDone with
      worker := .top
      programSteps := []
      programCounter := 0
      aborts := s.aborts + 1 }) : Progress t := by
  have hrunning : s.aborts = 0 := by
    by_contra ha
    have hafter := (h.aborted ha).2.2.2.2
    rw [hchecking] at hafter
    exact absurd (hafter.symm.trans herror) nofun
  obtain rfl := hstop
  refine ⟨nofun, fun _ => ⟨?_, rfl, h.inOrder, h.error herror, trivial⟩, nofun, nofun, h.error,
    h.kept⟩
  show s.aborts + 1 = 1
  rw [hrunning]

/-! ## Accesses to RXDB -/

/-- What an access leaves as it is, and what it does as the last one of a transfer. -/
structure Accessed (s t : State σ) (o : σ) : Prop where
  same : SameProgram s t
  worker : t.worker = s.worker
  error : (s.signalError = true → s.ownError = true) → t.signalError = true → t.ownError = true
  own : s.ownError = true → t.ownError = true
  refused : s.accepts = false → t.signalError = s.signalError
  outcome : (t.host = s.host ∧ t.signalTransferRequest = s.signalTransferRequest ∧
      t.transferred = s.transferred) ∨
    (s.accepts = true ∧ t.host = Function.update s.host o .signalling ∧
      t.signalTransferRequest = false ∧ t.transferred = true)

namespace Accessed

theorem refl (s : State σ) (o : σ) : Accessed s s o :=
  ⟨⟨rfl, rfl, rfl, rfl, rfl, rfl⟩, rfl, id, id, fun _ => rfl, .inl ⟨rfl, rfl, rfl⟩⟩

theorem index (s : State σ) (o : σ) (i rxta : ℕ) :
    Accessed s { s with transferByteIdx := i, rxta } o :=
  ⟨⟨rfl, rfl, rfl, rfl, rfl, rfl⟩, rfl, id, id, fun _ => rfl, .inl ⟨rfl, rfl, rfl⟩⟩

theorem refuse {o : σ} (h : Accessed s t o) (ha : s.accepts = true) (error : Bool) :
    Accessed s (t.refuse error) o where
  same := ⟨h.same.1, h.same.2, h.same.3, h.same.4, h.same.5, h.same.6⟩
  worker := h.worker
  error hs he := by
    rcases Bool.or_eq_true_iff.mp he with he | he
    · exact Bool.or_eq_true_iff.mpr (.inl (h.error hs he))
    · exact Bool.or_eq_true_iff.mpr (.inr he)
  own hs := Bool.or_eq_true_iff.mpr (.inl (h.own hs))
  refused hno := absurd (ha.symm.trans hno) nofun
  outcome := h.outcome

theorem complete {o : σ} (h : Accessed s t o) (hhost : t.host = s.host)
    (ha : s.accepts = true) : Accessed s (t.complete o) o where
  same := ⟨h.same.1, h.same.2, h.same.3, h.same.4, h.same.5, h.same.6⟩
  worker := h.worker
  error := h.error
  own := h.own
  refused hno := absurd (ha.symm.trans hno) nofun
  outcome := by
    rw [← hhost]
    exact .inr ⟨ha, rfl, rfl, rfl⟩

end Accessed

theorem accessed_of_read {o : σ} (h : s.rxdbAfterRead o = some t) : Accessed s t o := by
  unfold State.rxdbAfterRead at h
  cases ha : s.accepts with
  | false =>
    rw [ha, if_pos (by rfl)] at h
    obtain rfl := Option.some.inj h
    exact .refl s o
  | true =>
    rw [ha, if_neg (by nofun)] at h
    split_ifs at h with _ _ _
    · obtain rfl := Option.some.inj h
      exact .index s o _ s.rxta
    · obtain rfl := Option.some.inj h
      exact (Accessed.index s o _ s.rxta).complete rfl ha
    · obtain rfl := Option.some.inj h
      exact .refl s o

theorem accessed_of_write {o : σ} {w : BitVec 16} (h : s.rxdbAfterWrite o w = some t) :
    Accessed s t o := by
  unfold State.rxdbAfterWrite at h
  cases ha : s.accepts with
  | false =>
    rw [ha, if_pos (by rfl)] at h
    obtain rfl := Option.some.inj h
    exact .refl s o
  | true =>
    rw [ha, if_neg (by nofun)] at h
    have hindex := Accessed.index s o (s.transferByteIdx + 1) s.rxta
    split at h
    -- data for the sector buffer
    · simp only [Option.ite_none_right_eq_some] at h
      obtain rfl := Option.some.inj h.2
      split_ifs
      · exact hindex.complete rfl ha
      · exact hindex
    -- sector and track address
    iterate 3
      split at h
      · obtain rfl := Option.some.inj h
        exact hindex.refuse ha _
      · obtain rfl := Option.some.inj h
        exact ((Accessed.index s o _ _).refuse ha _).complete rfl ha
      · obtain rfl := Option.some.inj h
        exact hindex
    -- the key word
    · split_ifs at h
      · obtain rfl := Option.some.inj h
        exact ((Accessed.refl s o).refuse ha _).complete rfl ha
      · obtain rfl := Option.some.inj h
        exact .refl s o
    · obtain rfl := Option.some.inj h
      exact .refl s o

omit [DecidableEq σ] in
theorem accepts_of_programSteps_nil (h : s.programSteps = []) : s.accepts = false := by
  rw [State.accepts, State.programComplete, State.stepCurrent, h]
  rfl

theorem Progress.access (h : Progress s) {o : σ} (hacc : Accessed s t o) : Progress t := by
  refine h.move hacc.same (by rw [hacc.worker]) (fun ha => ?_) (fun _ hne => ?_)
    (fun hw => h.startWait (hacc.worker ▸ hw)) (hacc.error h.error) hacc.own
  · obtain ⟨-, hprogram, -, -, hafter⟩ := h.aborted ha
    rw [hacc.worker, hacc.refused (accepts_of_programSteps_nil hprogram)]
    exact hafter
  · rw [← hacc.worker]
    exact hne

/-! ## Transfers -/

/-- A signal for complete data belongs to the worker that waits for them. -/
structure Handover (s : State σ) : Prop where
  request : s.signalTransferRequest = true →
    s.worker.awaitsData = true ∧ s.transferred = false
  signalling : ∀ o, s.host o = .signalling → s.worker.awaitsData = true ∧ s.transferred = true
  unique : ∀ o p, s.host o = .signalling → s.host p = .signalling → o = p
  signalled : s.worker.awaitsData = true → s.transferred = true → ∃ o, s.host o = .signalling
  woken : s.worker = .transferWoken → s.transferred = true

namespace Handover

omit [DecidableEq σ] in
/-- The worker moves, and waits for data as before. -/
theorem move (h : Handover s) (hhost : t.host = s.host)
    (hawaits : t.worker.awaitsData = s.worker.awaitsData)
    (hwoken : t.worker ≠ .transferWoken)
    (hrequest : t.signalTransferRequest = true → s.signalTransferRequest = true)
    (htransferred : t.transferred = s.transferred) : Handover t where
  request hr := by
    rw [hawaits, htransferred]
    exact h.request (hrequest hr)
  signalling o ho := by
    rw [hawaits, htransferred]
    exact h.signalling o (hhost ▸ ho)
  unique o p ho hp := h.unique o p (hhost ▸ ho) (hhost ▸ hp)
  signalled ha ht := by
    rw [hhost]
    exact h.signalled (hawaits ▸ ha) (htransferred ▸ ht)
  woken hw := absurd hw hwoken

/-- A thread goes on to a phase in which it has nothing to signal. -/
theorem setHost (h : Handover s) {o : σ} {p : Host} (hnot : s.host o ≠ .signalling)
    (hp : p ≠ .signalling) : Handover (s.setHost o p) := by
  have hsame : ∀ q, (s.setHost o p).host q = .signalling ↔ s.host q = .signalling := by
    intro q
    by_cases hq : q = o
    · subst hq
      simp [State.setHost, hnot, hp]
    · simp [State.setHost, Function.update_of_ne hq]
  refine ⟨h.request, fun q hq => h.signalling q ((hsame q).mp hq),
    fun q r hq hr => h.unique q r ((hsame q).mp hq) ((hsame r).mp hr), fun ha ht => ?_, h.woken⟩
  obtain ⟨q, hq⟩ := h.signalled ha ht
  exact ⟨q, (hsame q).mpr hq⟩

theorem access (h : Handover s) {o : σ}
    (hcareful : s.accepts = true → s.signalTransferRequest = true)
    (hacc : Accessed s t o) : Handover t := by
  have hw := hacc.worker
  rcases hacc.outcome with ⟨hhost, hrequest, htransferred⟩ | ⟨ha, hhost, hrequest, htransferred⟩
  · by_cases hwoken : s.worker = .transferWoken
    · refine ⟨?_, ?_, hhost ▸ h.unique, ?_, fun _ => htransferred.trans (h.woken hwoken)⟩
      · rw [hw, hrequest, htransferred]
        exact h.request
      · rw [hw, hhost, htransferred]
        exact h.signalling
      · rw [hw, hhost, htransferred]
        exact h.signalled
    · exact h.move hhost (congrArg Worker.awaitsData hw) (hw ▸ hwoken)
        (fun hr => hrequest ▸ hr) htransferred
  · -- The request was shown, so nobody else is about to signal.
    obtain ⟨hawaits, hopen⟩ := h.request (hcareful ha)
    have honly : ∀ p, t.host p = .signalling → p = o := by
      intro p hp
      by_contra hne
      rw [hhost, Function.update_of_ne hne] at hp
      exact absurd ((h.signalling p hp).2.symm.trans hopen) nofun
    refine ⟨fun hr => ?_, fun p _ => ⟨hw ▸ hawaits, htransferred⟩,
      fun p q hp hq => (honly p hp).trans (honly q hq).symm, fun _ _ => ⟨o, ?_⟩,
      fun _ => htransferred⟩
    · rw [hrequest] at hr
      cases hr
    · rw [hhost, Function.update_self]

omit [DecidableEq σ] in
theorem execute (h : Handover s) {cur : Step} (htop : s.worker = .top)
    (hexec : Executed s t cur) : Handover t := by
  have hquiet : ∀ o, s.host o ≠ .signalling := by
    intro o ho
    have hawaits := (h.signalling o ho).1
    rw [htop] at hawaits
    cases hawaits
  have hnone : s.signalTransferRequest = false := by
    by_contra hr
    have hawaits := (h.request (Bool.not_eq_false _ ▸ hr)).1
    rw [htop] at hawaits
    cases hawaits
  have hno : ∀ o, t.host o ≠ .signalling := fun o => hexec.host ▸ hquiet o
  refine ⟨fun hr => ?_, fun o ho => absurd ho (hno o), fun o _ ho => absurd ho (hno o),
    fun ha ht => ?_, fun hw => ?_⟩
  · rcases hexec.request hr with htransfer | hr
    · rw [hexec.worker, htransfer]
      exact ⟨rfl, hexec.transferred htransfer⟩
    · rw [hnone] at hr
      cases hr
  · cases htransfer : cur.isTransfer with
    | true =>
      rw [hexec.transferred htransfer] at ht
      cases ht
    | false =>
      rw [hexec.worker, htransfer] at ha
      cases ha
  · rw [hexec.worker] at hw
    split_ifs at hw

omit [DecidableEq σ] in
/-- The worker is signalled while it waits for a start, or does not wait. -/
theorem signalWorker (h : Handover s) (hwait : s.worker ≠ .transferWait)
    (hwoken : s.worker ≠ .transferWoken) (hhost : t.host = s.host)
    (hworker : t.worker = s.worker.signalled)
    (hrequest : t.signalTransferRequest = true → s.signalTransferRequest = true)
    (htransferred : t.transferred = s.transferred) : Handover t := by
  have hnext : s.worker.signalled.awaitsData = s.worker.awaitsData ∧
      s.worker.signalled ≠ .transferWoken := by
    revert hwait hwoken
    cases s.worker <;> simp [Worker.signalled, Worker.awaitsData]
  exact h.move hhost (hworker ▸ hnext.1) (hworker ▸ hnext.2) hrequest htransferred

/-- The signal for complete data ends the wait. -/
theorem signal (h : Handover s) {o : σ} (ho : s.host o = .signalling)
    (hfree : s.worker.holdsMutex = false) :
    s.worker = .transferWait ∧
      Handover ({ s with worker := s.worker.signalled }.setHost o .idle) := by
  obtain ⟨hawaits, htransferred⟩ := h.signalling o ho
  have hwait : s.worker = .transferWait := by
    revert hawaits hfree
    cases s.worker <;> simp [Worker.holdsMutex, Worker.awaitsData]
  refine ⟨hwait, ?_⟩
  have hnone : ∀ p,
      ({ s with worker := s.worker.signalled }.setHost o .idle).host p ≠ .signalling := by
    intro p hp
    by_cases hpo : p = o
    · rw [hpo] at hp
      simp [State.setHost] at hp
    · have hp' : s.host p = .signalling := (Function.update_of_ne hpo _ _).symm.trans hp
      exact hpo (h.unique p o hp' ho)
  refine ⟨fun hr => absurd ((h.request hr).2.symm.trans htransferred) nofun,
    fun p hp => absurd hp (hnone p), fun p _ hp => absurd hp (hnone p), fun ha _ => ?_,
    fun _ => htransferred⟩
  simp only [State.setHost, hwait] at ha
  cases ha

end Handover

/-! ## Every step -/

/-- The invariant of careful runs. -/
structure Inv (s : State σ) : Prop where
  progress : Progress s
  handover : Handover s

namespace Inv

omit [DecidableEq σ] in
/-- The worker goes on, without a step and without waiting for data. -/
theorem moveWorker (h : Inv s) {w : Worker} (hstep : s.worker.inStep = false)
    (hin : w.inStep = false) (hawaits : s.worker.awaitsData = false)
    (habort : s.aborts ≠ 0 → w.AfterAbort s.signalError)
    (hwait : w = .startWait → s.programComplete = true) :
    Inv { s with worker := w } where
  progress := by
    refine h.progress.move ⟨rfl, rfl, rfl, rfl, rfl, rfl⟩ (hin.trans hstep.symm) habort
      (fun hw _ => ?_) hwait h.progress.error id
    rw [hin] at hw
    cases hw
  handover := by
    refine h.handover.move rfl ?_ ?_ id rfl
    · rw [hawaits]
      revert hin
      cases w <;> simp [Worker.inStep, Worker.awaitsData]
    · rintro rfl
      cases hin

omit [DecidableEq σ] in
/-- Signals are cleared, and registers change that no program depends on. -/
theorem clear (h : Inv s) (hsame : SameProgram s t) (hw : t.worker = s.worker)
    (hhost : t.host = s.host) (htransferred : t.transferred = s.transferred)
    (hrequest : t.signalTransferRequest = true → s.signalTransferRequest = true)
    (herror : t.signalError = true → s.signalError = true) (hown : t.ownError = s.ownError) :
    Inv t where
  progress := by
    refine h.progress.move hsame (by rw [hw]) (fun ha => ?_) (fun _ hne => hw ▸ hne)
      (fun hwait => h.progress.startWait (hw ▸ hwait))
      (fun he => hown.trans (h.progress.error (herror he))) hown.trans
    have hafter := (h.progress.aborted ha).2.2.2.2
    rw [hw]
    cases he : t.signalError with
    | true => exact (herror he) ▸ hafter
    | false =>
      revert hafter
      cases s.worker <;> simp [Worker.AfterAbort]
  handover := by
    obtain ⟨hreq, hsig, huniq, hall, hwoken⟩ := h.handover
    rw [← hhost] at hsig huniq hall
    rw [← hw, ← htransferred] at hreq hsig hall hwoken
    exact ⟨fun hr => hreq (hrequest hr), hsig, huniq, hall, hwoken⟩

theorem setHost (h : Inv s) {o : σ} {p : Host} (hnot : s.host o ≠ .signalling)
    (hp : p ≠ .signalling) : Inv (s.setHost o p) where
  progress := h.progress.move ⟨rfl, rfl, rfl, rfl, rfl, rfl⟩ rfl
    (fun ha => (h.progress.aborted ha).2.2.2.2) (fun _ hne => hne) h.progress.startWait
    h.progress.error id
  handover := h.handover.setHost hnot hp

omit [DecidableEq σ] in
/-- With the mutex free and no transfer going on, `init()` can install its program. -/
theorem install (h : Inv s) {program : List Step} {error : Bool}
    (hfree : s.worker.holdsMutex = false) (hwait : s.worker ≠ .transferWait)
    (hwoken : s.worker ≠ .transferWoken) (herror : s.signalError = true → error = true) :
    Inv (s.install program error) where
  progress := by
    refine .install h.progress.kept ?_ herror
    revert hfree hwait hwoken
    cases s.worker <;> simp [Worker.holdsMutex, Worker.inStep]
  handover := h.handover.signalWorker hwait hwoken rfl rfl id rfl

omit [DecidableEq σ] in
/-- A program that is complete can be followed by the next one. -/
theorem go (h : Inv s) (hcomplete : s.programComplete = true) (rx2wc : ℕ) (imageIsOpen : Bool) :
    Inv (s.go rx2wc imageIsOpen) := by
  have hout : s.worker.inStep = false := by
    by_contra hin
    obtain ⟨cur, hcur, -⟩ := h.progress.current (Bool.not_eq_false _ ▸ hin)
    rw [State.programComplete, hcur] at hcomplete
    cases hcomplete
  have hended : s.ended = true := by
    rcases h.progress.ended hcomplete with ha | hall
    · simp [State.ended, ha]
    · simp [State.ended, hall]
  refine ⟨.install ?_ hout id, h.handover.signalWorker ?_ ?_ rfl rfl nofun rfl⟩
  · show (s.cutShort || !s.ended) = false
    rw [h.progress.kept, hended]
    rfl
  · intro hw
    rw [hw] at hout
    cases hout
  · intro hw
    rw [hw] at hout
    cases hout

theorem step (h : Inv s) {a : Action σ} (hcareful : Careful s a)
    (hstep : RX0102uCPU.step s a = some t) : Inv t := by
  obtain ⟨hp, hh⟩ := h
  cases a with
  | workerStart =>
    simp only [RX0102uCPU.step, Option.ite_none_right_eq_some] at hstep
    obtain ⟨hw, ht⟩ := hstep
    obtain rfl := Option.some.inj ht
    exact moveWorker ⟨hp, hh⟩ (by rw [hw]; rfl) rfl (by rw [hw]; rfl) (fun _ => trivial) nofun
  | waitStart =>
    simp only [RX0102uCPU.step, Option.ite_none_right_eq_some] at hstep
    obtain ⟨⟨hw, hcomplete⟩, ht⟩ := hstep
    obtain rfl := Option.some.inj ht
    exact moveWorker ⟨hp, hh⟩ (by rw [hw]; rfl) rfl (by rw [hw]; rfl) (fun _ => trivial)
      (fun _ => hcomplete)
  | execute ok =>
    simp only [RX0102uCPU.step, Option.ite_none_right_eq_some] at hstep
    obtain ⟨hw, ht⟩ := hstep
    obtain ⟨cur, hcur, ht⟩ := Option.bind_eq_some_iff.mp ht
    have hexec := executed_of_stepExecute ht
    exact ⟨hp.execute hw hcur hexec, hh.execute hw hexec⟩
  | waitTransfer =>
    simp only [RX0102uCPU.step, Option.ite_none_right_eq_some] at hstep
    obtain ⟨hw, ht⟩ := hstep
    obtain rfl := Option.some.inj ht
    refine ⟨hp.move ⟨rfl, rfl, rfl, rfl, rfl, rfl⟩ (by rw [hw]; rfl) (fun ha => ?_)
      (fun _ _ => by rw [hw]; nofun) nofun hp.error id,
      hh.move rfl (by rw [hw]; rfl) nofun id rfl⟩
    have hafter := (hp.aborted ha).2.2.2.2
    rw [hw] at hafter
    exact hafter.elim
  | wake =>
    simp only [RX0102uCPU.step, Option.ite_none_right_eq_some] at hstep
    obtain ⟨hw, ht⟩ := hstep
    obtain rfl := Option.some.inj ht
    have hstart : s.worker = .startWait := hw.resolve_left hcareful.1
    exact moveWorker ⟨hp, hh⟩ (by rw [hstart]; rfl) (by rw [hstart]; rfl) (by rw [hstart]; rfl)
      (fun _ => by rw [hstart]; exact hcareful.2) (by rw [hstart]; nofun)
  | relock =>
    cases hw : s.worker <;> simp only [RX0102uCPU.step, hw] at hstep <;> try cases hstep
    · -- the transfer step ends
      refine ⟨hp.move ⟨rfl, rfl, rfl, rfl, rfl, rfl⟩ (by rw [hw]; rfl) (fun ha => ?_)
        (fun _ hne => absurd rfl hne) nofun hp.error id,
        hh.move rfl (by rw [hw]; rfl) nofun id rfl⟩
      have hafter := (hp.aborted ha).2.2.2.2
      rw [hw] at hafter
      exact hafter.elim
    · refine moveWorker ⟨hp, hh⟩ (by rw [hw]; rfl) rfl (by rw [hw]; rfl) (fun ha => ?_) nofun
      have hafter := (hp.aborted ha).2.2.2.2
      rw [hw] at hafter
      exact hafter
  | next =>
    simp only [RX0102uCPU.step, Option.ite_none_right_eq_some] at hstep
    obtain ⟨hw, ht⟩ := hstep
    obtain rfl := Option.some.inj ht
    exact ⟨hp.next hw rfl, hh.move rfl (by rw [hw]; rfl) nofun id rfl⟩
  | check =>
    simp only [RX0102uCPU.step, Option.ite_none_right_eq_some] at hstep
    obtain ⟨hw, ht⟩ := hstep
    split_ifs at ht with herror
    · obtain rfl := Option.some.inj ht
      exact ⟨hp.stop hw herror rfl, hh.move rfl (by rw [hw]; rfl) nofun nofun rfl⟩
    · obtain rfl := Option.some.inj ht
      exact moveWorker ⟨hp, hh⟩ (by rw [hw]; rfl) rfl (by rw [hw]; rfl) (fun _ => trivial) nofun
  | read o =>
    simp only [RX0102uCPU.step, Option.ite_none_right_eq_some] at hstep
    have hacc := accessed_of_read hstep.2
    exact ⟨hp.access hacc, hh.access hcareful hacc⟩
  | write o w =>
    simp only [RX0102uCPU.step, Option.ite_none_right_eq_some] at hstep
    have hacc := accessed_of_write hstep.2
    exact ⟨hp.access hacc, hh.access hcareful hacc⟩
  | signal o =>
    simp only [RX0102uCPU.step, Option.ite_none_right_eq_some] at hstep
    obtain ⟨⟨ho, hfree⟩, ht⟩ := hstep
    obtain rfl := Option.some.inj ht
    obtain ⟨hwait, hhand⟩ := hh.signal ho hfree
    refine ⟨hp.move ⟨rfl, rfl, rfl, rfl, rfl, rfl⟩ (Worker.inStep_signalled _) (fun ha => ?_)
      (fun _ _ => by rw [hwait]; nofun) (fun hw => absurd hw s.worker.signalled_ne_startWait)
      hp.error id, hhand⟩
    have hafter := (hp.aborted ha).2.2.2.2
    rw [hwait] at hafter
    exact hafter.elim
  | initEnter o =>
    simp only [RX0102uCPU.step, Option.ite_none_right_eq_some] at hstep
    obtain ⟨ho, ht⟩ := hstep
    obtain rfl := Option.some.inj ht
    refine setHost ?_ ?_ ?_
    · exact clear ⟨hp, hh⟩ ⟨rfl, rfl, rfl, rfl, rfl, rfl⟩ rfl rfl rfl nofun nofun rfl
    · exact ho.trans_ne nofun
    · nofun
  | initLock o =>
    simp only [RX0102uCPU.step, Option.ite_none_right_eq_some] at hstep
    obtain ⟨⟨ho, hfree⟩, ht⟩ := hstep
    obtain rfl := Option.some.inj ht
    obtain ⟨hwait, hwoken, hnone⟩ := hcareful
    refine setHost (install ⟨hp, hh⟩ hfree hwait hwoken fun he => ?_) ?_ ?_
    · exact absurd (he.symm.trans hnone) nofun
    · exact ho.trans_ne nofun
    · nofun
  | goEnter o code =>
    simp only [RX0102uCPU.step, Option.ite_none_right_eq_some] at hstep
    obtain ⟨ho, ht⟩ := hstep
    obtain rfl := Option.some.inj ht
    refine setHost ?_ ?_ ?_
    · exact clear ⟨hp, hh⟩ ⟨rfl, rfl, rfl, rfl, rfl, rfl⟩ rfl rfl rfl id id rfl
    · exact ho.trans_ne nofun
    · nofun
  | goLock o rx2wc imageIsOpen =>
    simp only [RX0102uCPU.step, Option.ite_none_right_eq_some] at hstep
    obtain ⟨⟨ho, hfree⟩, ht⟩ := hstep
    obtain rfl := Option.some.inj ht
    refine setHost (go ⟨hp, hh⟩ hcareful rx2wc imageIsOpen) ?_ ?_
    · exact ho.trans_ne nofun
    · nofun

omit [DecidableEq σ] in
theorem orderly (h : Inv s) : Orderly s where
  inOrder := h.progress.inOrder
  started hw := h.progress.ended (h.progress.startWait hw)
  stopped := by
    by_cases ha : s.aborts = 0
    · exact ⟨by omega, fun hne => absurd ha hne⟩
    · obtain ⟨hone, -, -, hcause, -⟩ := h.progress.aborted ha
      exact ⟨hone.le, fun _ => hcause⟩
  transfers hw := by
    have hin : s.worker.inStep = true ∧ s.worker ≠ .executed := by
      revert hw
      cases s.worker <;> simp [Worker.awaitsData, Worker.inStep]
    have ha : s.aborts = 0 := by
      by_contra ha
      exact absurd (hin.1.symm.trans (h.progress.aborted ha).2.2.2.2.not_inStep) nofun
    obtain ⟨cur, hcur, htransfer⟩ := h.progress.current hin.1
    obtain ⟨hprogram, hexecuted⟩ := h.progress.running ha
    rw [State.stepCurrent, hprogram] at hcur
    refine ⟨cur, ?_, htransfer hin.2⟩
    rw [hexecuted, State.reached, hin.1, if_pos rfl, List.take_add_one, hcur]
    exact List.getLast?_concat
  signalled hw ht := h.handover.signalled (by rw [hw]; rfl) ht
  woken := h.handover.woken
  kept := h.progress.kept

omit [DecidableEq σ] in
theorem initial (h : Initial s) : Inv s where
  progress := by
    have hout : s.worker.inStep = false := by rw [h.worker]; rfl
    refine ⟨fun _ => ⟨?_, ?_⟩, fun ha => absurd h.aborts ha, fun hin => ?_, fun hw => ?_,
      fun _ => h.error, h.kept⟩
    · rw [h.programSteps, h.installed]
    · rw [h.executed, h.installed, List.take_nil]
    · exact absurd (hin.symm.trans hout) nofun
    · exact absurd (hw.symm.trans h.worker) nofun
  handover := by
    have hquiet : ∀ o, s.host o ≠ .signalling := fun o => (h.host o).trans_ne nofun
    refine ⟨fun hr => ?_, fun o ho => absurd ho (hquiet o), fun o _ ho => absurd ho (hquiet o),
      fun ha => ?_, fun hw => ?_⟩
    · exact absurd (hr.symm.trans h.request) nofun
    · rw [h.worker] at ha
      cases ha
    · exact absurd (hw.symm.trans h.worker) nofun

end Inv

/-- In careful runs every program is executed in order. -/
theorem orderly_of_careful {s : State σ}
    (hs : Transition.Reachable Initial CarefulStep s) : Orderly s := by
  refine Inv.orderly (hs.invariant (fun _ => Inv.initial) ?_)
  rintro u v hu ⟨a, hcareful, hstep⟩
  exact hu.step hcareful hstep

/-! ## A run with `init()` in a transfer -/

instance (s : State σ) : (a : Action σ) → Decidable (Careful s a)
  | .wake => inferInstanceAs (Decidable (_ ∧ _))
  | .read _ | .write _ _ => inferInstanceAs (Decidable (_ → _))
  | .initLock _ => inferInstanceAs (Decidable (_ ∧ _ ∧ _))
  | .goLock _ _ _ => inferInstanceAs (Decidable (_ = _))
  | .workerStart | .waitStart | .execute _ | .waitTransfer | .relock | .next | .check
  | .signal _ | .initEnter _ | .goEnter _ _ => inferInstanceAs (Decidable True)

/-- An RX01 before power-on. -/
def poweredOff : State Unit where
  isRX02 := false
  programSteps := []
  programCounter := 0
  programFunctionCode := .fillBuffer
  transferBuffer := none
  transferByteCount := 0
  transferByteIdx := 0
  rxta := 0
  signalDone := true
  signalError := true
  signalTransferRequest := false
  worker := .starting
  host _ := .idle
  installed := []
  executed := []
  aborts := 0
  ownError := true
  transferred := false
  cutShort := false

theorem poweredOff_initial : Initial poweredOff :=
  ⟨rfl, fun _ => rfl, rfl, rfl, rfl, rfl, rfl, rfl, rfl⟩

/-- The box is switched on, and reads the boot sector. -/
def powerOn : List (Action Unit) :=
  [.workerStart, .waitStart, .initEnter (), .initLock (), .relock, .check,
    .execute true, .next, .check, .execute true, .next, .check, .execute true, .next, .check,
    .waitStart]

/-- A sector is to be read, and the worker waits for its address. -/
def readSector : List (Action Unit) :=
  [.goEnter () .readSector, .goLock () 0 true, .relock, .check, .execute true, .waitTransfer]

/-- The address is given, and the sector read. -/
def giveAddress : List (Action Unit) :=
  [.write () 1, .write () 1, .signal (), .relock, .next, .check, .execute true, .next, .check,
    .execute true, .next, .check, .execute true, .next, .check, .execute true, .next, .check,
    .waitStart]

theorem orderly_of_careful_readSector :
    ∃ s : State Unit, s.executed = [.transferBufferWrite, .seek, .headSettle, .sectorRead, .done] ∧
      Orderly s := by
  have hlog : (Transition.run (Transition.guarded Careful step) poweredOff
      (powerOn ++ readSector ++ giveAddress)).map (·.executed) =
      some [.transferBufferWrite, .seek, .headSettle, .sectorRead, .done] := by decide
  obtain ⟨s, hrun, hexecuted⟩ := Option.map_eq_some_iff.mp hlog
  refine ⟨s, hexecuted, orderly_of_careful (.run (fun u a v h => ?_)
    (.init poweredOff_initial) hrun)⟩
  exact ⟨a, Transition.guarded_eq_some.mp h⟩

/-- `init()` while the worker waits for the address: it begins with the second step. -/
theorem init_skips_seek :
    ¬ ∀ s : State Unit, Transition.Reachable Initial AnyStep s → Orderly s := by
  intro hall
  have hlog : (Transition.run step poweredOff (powerOn ++ readSector ++
      [.initEnter (), .initLock (), .relock, .next, .check, .execute true])).map
        (fun s => (s.installed, s.executed)) =
      some ([.seek, .sectorRead, .initDone], [.sectorRead]) := by decide
  obtain ⟨s, hrun, hs⟩ := Option.map_eq_some_iff.mp hlog
  obtain ⟨hinstalled, hexecuted⟩ := Prod.mk.inj hs
  have hreached : Transition.Reachable Initial AnyStep s :=
    .run (fun u a v h => ⟨a, h⟩) (.init poweredOff_initial) hrun
  have horder := (hall s hreached).inOrder
  rw [hinstalled, hexecuted] at horder
  exact absurd horder (by decide)

end QUniBone.RX0102uCPU
