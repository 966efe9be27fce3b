import QUniBone.Cpu34.CoherentRuns

/-!
# When a step returns

`step()` goes round `trap:` – `service:` – `trap:` and `trap:` – `be:` – `trap:`. Two things
keep it there. A failed push starts the sequence again, as the vector fetch in front of it has
just cleared `cpu->be`; and `oldpsw = PSW` makes `service:` see the T bit of the new PSW, so
that a trap handler with T set is traced before it begins.

* `Entered`: the rounds of the trap sequence a step goes through.
* `Stops`: a step returns, and a failed trap sequence is the end of it.
* `stops_iff`: exactly when a step does.
-/

namespace QUniBone.Kd11ea

open Prog

variable {bus : Bus}

/-! ## References -/

/-- At most `n` references later. -/
def AddsReferences (n : ℕ) (s t : Machine) : Prop := t.bus.references ≤ s.bus.references + n

theorem addsReferences_graded : Graded AddsReferences where
  refl := fun _ => Nat.le_refl _
  trans := by
    intro m n s t u hst htu
    unfold AddsReferences at *
    omega
  mono := by
    intro m n s t hmn hst
    unfold AddsReferences at *
    omega

theorem addsReferences_of_bus {s t : Machine} (h : t.bus = s.bus) : AddsReferences 0 s t := by
  rw [AddsReferences, h]
  exact Nat.le_refl _

theorem addsReferences_onBus (s : Machine) (e : BusEvent) : AddsReferences 1 s (s.onBus e) := by
  unfold AddsReferences Machine.onBus BusLog.references
  rw [List.countP_cons]
  split <;> omega

/-- A call which transfers no data. -/
theorem addsReferences_call (s : Machine) {e : BusEvent} (he : e.isReference = false) :
    AddsReferences 0 s (s.onBus e) := by
  unfold AddsReferences Machine.onBus BusLog.references
  rw [List.countP_cons, he]
  exact Nat.le_refl _

theorem addsReferences_setPsw (s : Machine) (w : Word) : AddsReferences 0 s (s.setPsw w) :=
  addsReferences_call _ rfl

theorem addsReferences_translated (s : Machine) (access : Access) :
    AddsReferences 0 s (s.translated access) :=
  addsReferences_of_bus (translated_bus s access)

theorem addsReferences_dati (bus : Bus) (byte : Bool) :
    Within AddsReferences 1 (dati bus byte) := by
  have hG := addsReferences_graded
  intro m
  have htranslated := addsReferences_translated m .read
  have hspec := dati_spec bus byte m
  generalize Kd11ea.dati bus byte m = result at hspec ⊢
  cases hspec with
  | odd => exact hG.mono (Nat.zero_le 1) (addsReferences_of_bus rfl)
  | aborted => exact hG.mono (Nat.zero_le 1) htranslated
  | internal => exact hG.mono (Nat.zero_le 1) htranslated
  | answered => exact hG.trans htranslated (addsReferences_onBus _ _)
  | timeout => exact hG.trans htranslated (addsReferences_onBus _ _)

theorem addsReferences_dato (bus : Bus) (byte : Bool) :
    Within AddsReferences 1 (dato bus byte) := by
  have hG := addsReferences_graded
  intro m
  have htranslated := addsReferences_translated m .write
  have hspec := dato_spec bus byte m
  generalize Kd11ea.dato bus byte m = result at hspec ⊢
  cases hspec with
  | odd => exact hG.mono (Nat.zero_le 1) (addsReferences_of_bus rfl)
  | aborted => exact hG.mono (Nat.zero_le 1) htranslated
  | @internal pa m' _ hw =>
      have hwrite : AddsReferences 0 (m.translated .write) m' := by
        cases writeInternal_spec hw with
        | mmr0 => exact addsReferences_of_bus rfl
        | register => exact addsReferences_of_bus rfl
        | switches => exact addsReferences_of_bus rfl
        | psw => exact addsReferences_setPsw _ _
      exact hG.mono (Nat.zero_le 1) (hG.trans htranslated hwrite)
  | acknowledged => exact hG.trans htranslated (addsReferences_onBus _ _)
  | timeout => exact hG.trans htranslated (addsReferences_onBus _ _)

/-- The instructions, counted. -/
theorem instrRel_references (bus : Bus) : InstrRel bus AddsReferences where
  toGraded := addsReferences_graded
  quiet := fun _ _ hquiet => addsReferences_of_bus (congrArg (·.bus) hquiet.symm)
  codes := fun _ _ => addsReferences_of_bus rfl
  dati := addsReferences_dati bus
  dato := addsReferences_dato bus
  prevDati := fun m => by
    rw [finalState_inPrevSpace]
    exact addsReferences_dati bus false (m.mapCpu spacePrev)
  prevDato := fun m => by
    rw [finalState_inPrevSpace]
    exact addsReferences_dato bus false (m.mapCpu spacePrev)
  log := fun _ _ _ => addsReferences_of_bus rfl
  started := fun _ => addsReferences_of_bus rfl
  fetched := fun _ => addsReferences_of_bus rfl
  mtps := fun _ => addsReferences_setPsw _ _
  rti := fun _ _ => addsReferences_setPsw _ _
  prevRegister := fun _ _ _ => addsReferences_of_bus rfl
  halt := fun _ _ => addsReferences_of_bus rfl
  wait := fun _ => addsReferences_of_bus rfl
  reset := fun _ _ => addsReferences_call _ rfl

theorem trapRel_references (bus : Bus) (inhov : Bool) : TrapRel bus inhov AddsReferences where
  toGraded := addsReferences_graded
  calm := fun _ _ hcalm => addsReferences_of_bus (congrArg (·.bus) hcalm.symm)
  spaceKernel := fun _ => addsReferences_of_bus rfl
  spaceRestore := fun _ => addsReferences_of_bus rfl
  dati := addsReferences_dati bus false
  dato := addsReferences_dato bus false
  setPsw := addsReferences_setPsw
  stackLimit := fun _ _ => addsReferences_of_bus rfl

theorem service_bus (m : Machine) (inhov t : Bool) : (service m inhov t).machine.bus = m.bus := by
  unfold service trapTo
  split_ifs <;> rfl

theorem busError_bus (m : Machine) (inhov : Bool) (oldpsw : Option Word) :
    (busError m inhov oldpsw).machine.bus = m.bus := by
  unfold busError trapTo
  cases oldpsw <;> split <;> rfl

theorem stepStart_references (bus : Bus) (m : Machine) :
    AddsReferences 8 m (stepStart bus m).machine := by
  have hG := addsReferences_graded
  unfold stepStart
  split
  case isTrue => exact hG.mono (Nat.zero_le 8) (addsReferences_of_bus rfl)
  case isFalse =>
    have hinstr := (instrRel_references bus).instruction m
    cases hres : instruction bus m with
    | ok next m' =>
        rw [hres] at hinstr
        cases next with
        | service t => exact hG.trans hinstr (addsReferences_of_bus (service_bus _ _ _))
        | trap v => exact hinstr
        | ret => exact hinstr
    | error _ m' =>
        rw [hres] at hinstr
        exact hG.trans hinstr (addsReferences_of_bus (busError_bus _ _ _))

theorem trapRound_references (bus : Bus) (s : Round) :
    AddsReferences 4 s.machine (trapRound bus s).machine := by
  have hG := addsReferences_graded
  have hseq := (trapRel_references bus s.inhov).trapSequence s.machine
  unfold trapRound
  cases hres : trapSequence bus s.inhov s.machine with
  | ok _ m =>
      rw [hres] at hseq
      exact hG.trans hseq (addsReferences_of_bus (service_bus _ _ _))
  | error _ m =>
      rw [hres] at hseq
      exact hG.trans hseq (addsReferences_of_bus (busError_bus _ _ _))

theorem run_references {n : ℕ} {s : Round} {why : Stop} {m : Machine}
    (h : Loop.run (trapRound bus) n s = some (why, m)) : AddsReferences (4 * n) s.machine m := by
  induction n generalizing s with
  | zero => cases h
  | succ n ih =>
      have hround := trapRound_references bus s
      unfold AddsReferences at hround ih ⊢
      cases hjump : trapRound bus s with
      | inl stop =>
          rw [Loop.run_of_inl hjump, Option.some.injEq] at h
          rw [hjump, h] at hround
          have hround : m.bus.references ≤ _ := hround
          omega
      | inr t =>
          rw [hjump] at hround
          rw [Loop.run_of_inr hjump] at h
          have hround : t.machine.bus.references ≤ _ := hround
          have := ih h
          omega

/-- `n` rounds make at most `4 * n` references. -/
theorem finish_references {n : ℕ} {j : Jump} {why : Stop} {m : Machine}
    (h : finish bus n j = some (why, m)) : AddsReferences (4 * n) j.machine m := by
  cases j with
  | inl stop =>
      rw [finish, Option.some.injEq] at h
      rw [h]
      exact Nat.le_add_right _ _
  | inr s => exact run_references h

/-! ## The count of failed references -/

theorem cycleFailed_be (m : Machine) (vector : Word) :
    (m.cycleFailed vector).cpu.be = m.cpu.be + 1 := by
  unfold Machine.cycleFailed autoincUndo Machine.mapCpu
  dsimp only
  split <;> rfl

theorem translated_be (m : Machine) (access : Access) :
    (m.translated access).cpu.be = m.cpu.be := by
  rw [translated_cpu]

/-- A reference which succeeds clears `cpu->be`, one which fails counts. -/
theorem dati_be (bus : Bus) (byte : Bool) (m : Machine) :
    match dati bus byte m with
    | .ok _ t => t.cpu.be = 0
    | .error _ t => t.cpu.be = m.cpu.be + 1 := by
  have hbe := translated_be m .read
  have hspec := dati_spec bus byte m
  generalize Kd11ea.dati bus byte m = result at hspec ⊢
  cases hspec with
  | odd => exact cycleFailed_be m _
  | aborted => exact (cycleFailed_be _ _).trans (congrArg (· + 1) hbe)
  | internal => rfl
  | answered => rfl
  | timeout => exact (cycleFailed_be _ _).trans (congrArg (· + 1) hbe)

theorem dato_be (bus : Bus) (byte : Bool) (m : Machine) :
    match dato bus byte m with
    | .ok _ t => t.cpu.be = 0
    | .error _ t => t.cpu.be = m.cpu.be + 1 := by
  have hbe := translated_be m .write
  have hspec := dato_spec bus byte m
  generalize Kd11ea.dato bus byte m = result at hspec ⊢
  cases hspec with
  | odd => exact cycleFailed_be m _
  | aborted => exact (cycleFailed_be _ _).trans (congrArg (· + 1) hbe)
  | internal => rfl
  | acknowledged => rfl
  | timeout => exact (cycleFailed_be _ _).trans (congrArg (· + 1) hbe)

theorem vectorFetch_be (bus : Bus) (m : Machine) :
    match vectorFetch bus m with
    | .ok _ t => t.cpu.be = 0
    | .error _ t => t.cpu.be = m.cpu.be + 1 := by
  have hbe := dati_be bus false
    (m.mapCpu fun cpu => { (cpu.setDestRef false).spaceKernel with ba := cpu.r 10 })
  have hfetch : vectorFetch bus m = (dati bus false >>= fun _ => look (·.bdata))
    (m.mapCpu fun cpu => { (cpu.setDestRef false).spaceKernel with ba := cpu.r 10 }) := rfl
  rw [hfetch, bind_apply]
  generalize dati bus false _ = result at hbe ⊢
  cases result with
  | ok _ t => exact hbe
  | error _ t => exact hbe

/-- Behind the first vector word `cpu->be` is clear, so a failure there counts one. -/
theorem trapRest_be (bus : Bus) (inhov : Bool) (trappedPc trappedPsw newpc : Word) :
    Triple (fun m : Machine => m.cpu.be = 0) (trapRest bus inhov trappedPc trappedPsw newpc)
      (fun _ m => m.cpu.be = 0) (fun m => m.cpu.be = 1) := by
  have hupdate : ∀ f : Kd11ea → Kd11ea, (∀ cpu, (f cpu).be = cpu.be) →
      Triple (fun m : Machine => m.cpu.be = 0) (update f) (fun _ m => m.cpu.be = 0)
        (fun m => m.cpu.be = 1) :=
    fun f hf => Triple.modify fun m h => (hf m.cpu).trans h
  have hcycle : ∀ x : M Unit, (∀ m, match x m with
        | .ok _ t => t.cpu.be = 0
        | .error _ t => t.cpu.be = m.cpu.be + 1) →
      Triple (fun m : Machine => m.cpu.be = 0) x (fun _ m => m.cpu.be = 0)
        (fun m => m.cpu.be = 1) := by
    intro x hx m h
    have hbe := hx m
    cases hres : x m with
    | ok _ t => rwa [hres] at hbe
    | error _ t => rwa [hres, h] at hbe
  have hpush : Triple (fun m : Machine => m.cpu.be = 0) (push inhov) (fun _ m => m.cpu.be = 0)
      (fun m => m.cpu.be = 1) := by
    have hlimit : ∀ cpu : Kd11ea, (stackLimit cpu (cpu.r 6)).be = cpu.be := by
      intro cpu
      unfold stackLimit
      split <;> rfl
    unfold push
    refine Triple.bind (hupdate _ fun _ => rfl) fun _ =>
      Triple.bind (hupdate _ fun _ => rfl) fun _ => ?_
    unfold when
    split
    · exact hupdate _ hlimit
    · exact fun m h => h
  have hout : ∀ d : Kd11ea → Word, Triple (fun m : Machine => m.cpu.be = 0) (outSp bus d)
      (fun _ m => m.cpu.be = 0) (fun m => m.cpu.be = 1) := by
    intro d
    unfold outSp
    exact Triple.bind (hupdate _ fun _ => rfl) fun _ => hcycle _ (dato_be bus false)
  have hsetPsw : ∀ (cpu : Kd11ea) (w : Word), (cpu.setPsw w).be = cpu.be := by
    intro cpu w
    unfold setPsw
    dsimp only
    split <;> rfl
  have hlook : ∀ f : Kd11ea → Word, Triple (fun m : Machine => m.cpu.be = 0) (look f)
      (fun _ m => m.cpu.be = 0) (fun m => m.cpu.be = 1) := fun f m h => h
  unfold trapRest
  exact Triple.bind (hupdate _ fun _ => rfl) fun _ =>
    Triple.bind (hcycle _ (dati_be bus false)) fun _ =>
    Triple.bind (hlook _) fun _ => Triple.bind (hupdate _ fun _ => rfl) fun _ =>
    Triple.bind (Q := fun _ m => m.cpu.be = 0)
      (Triple.modify fun m h => (hsetPsw m.cpu _).trans h) fun _ =>
    Triple.bind hpush fun _ => Triple.bind (hout _) fun _ => Triple.bind hpush fun _ =>
    Triple.bind (hout _) fun _ => hupdate _ fun _ => rfl

theorem trapSequence_of_lost {m t : Machine} (inhov : Bool)
    (h : vectorFetch bus m = .error () t) : trapSequence bus inhov m = .error () t := by
  have happly : trapSequence bus inhov m = (vectorFetch bus >>= fun newpc =>
    trapRest bus inhov (m.cpu.r 7) m.cpu.psw newpc) m := rfl
  rw [happly, bind_apply, h]

theorem trapSequence_of_found {m t : Machine} (inhov : Bool) {newpc : Word}
    (h : vectorFetch bus m = .ok newpc t) :
    trapSequence bus inhov m = trapRest bus inhov (m.cpu.r 7) m.cpu.psw newpc t := by
  have happly : trapSequence bus inhov m = (vectorFetch bus >>= fun newpc =>
    trapRest bus inhov (m.cpu.r 7) m.cpu.psw newpc) m := rfl
  rw [happly, bind_apply, h]

/-! ## The trap flags -/

/-- The flag of a power fail stays; the stack limit flag changes only without `inhov`. -/
def KeepsTraps (inhov : Bool) (s t : Machine) : Prop :=
  t.cpu.traps.pwr = s.cpu.traps.pwr ∧
    (inhov = true → t.cpu.traps.stack = s.cpu.traps.stack)

theorem keepsTraps_of_eq {inhov : Bool} {s t : Machine} (h : t.cpu.traps = s.cpu.traps) :
    KeepsTraps inhov s t :=
  ⟨congrArg Traps.pwr h, fun _ => congrArg Traps.stack h⟩

theorem cycleFailed_traps (m : Machine) (vector : Word) :
    (m.cycleFailed vector).cpu.traps = m.cpu.traps := by
  unfold Machine.cycleFailed autoincUndo Machine.mapCpu
  dsimp only
  split <;> rfl

theorem setPsw_traps (cpu : Kd11ea) (w : Word) : (cpu.setPsw w).traps = cpu.traps := by
  unfold setPsw
  dsimp only
  split <;> rfl

theorem dati_traps (bus : Bus) (byte : Bool) (m : Machine) :
    (finalState (dati bus byte m)).cpu.traps = m.cpu.traps := by
  have htraps : (m.translated .read).cpu.traps = m.cpu.traps := by rw [translated_cpu]
  have hspec := dati_spec bus byte m
  generalize Kd11ea.dati bus byte m = result at hspec ⊢
  cases hspec with
  | odd => exact cycleFailed_traps m _
  | aborted => exact (cycleFailed_traps _ _).trans htraps
  | internal => exact htraps
  | answered => exact htraps
  | timeout => exact (cycleFailed_traps _ _).trans htraps

theorem dato_traps (bus : Bus) (byte : Bool) (m : Machine) :
    (finalState (dato bus byte m)).cpu.traps = m.cpu.traps := by
  have htraps : (m.translated .write).cpu.traps = m.cpu.traps := by rw [translated_cpu]
  have hspec := dato_spec bus byte m
  generalize Kd11ea.dato bus byte m = result at hspec ⊢
  cases hspec with
  | odd => exact cycleFailed_traps m _
  | aborted => exact (cycleFailed_traps _ _).trans htraps
  | @internal pa m' _ hw =>
      refine Eq.trans (?_ : m'.cpu.traps = (m.translated .write).cpu.traps) htraps
      cases writeInternal_spec hw with
      | mmr0 => rfl
      | register => rfl
      | switches => rfl
      | psw => exact setPsw_traps _ _
  | acknowledged => exact htraps
  | timeout => exact (cycleFailed_traps _ _).trans htraps

theorem trapRel_traps (bus : Bus) (inhov : Bool) :
    TrapRel bus inhov (ungraded (KeepsTraps inhov)) where
  toGraded := graded_ungraded (fun _ => keepsTraps_of_eq rfl) fun _ _ _ hst htu =>
    ⟨htu.1.trans hst.1, fun h => (htu.2 h).trans (hst.2 h)⟩
  calm := fun _ _ hcalm => keepsTraps_of_eq (congrArg (·.cpu.traps) hcalm.symm)
  spaceKernel := fun _ => keepsTraps_of_eq rfl
  spaceRestore := fun _ => keepsTraps_of_eq rfl
  dati := fun m => keepsTraps_of_eq (dati_traps bus false m)
  dato := fun m => keepsTraps_of_eq (dato_traps bus false m)
  setPsw := fun m w => keepsTraps_of_eq (setPsw_traps m.cpu w)
  stackLimit := by
    rintro rfl m
    refine ⟨?_, nofun⟩
    unfold Machine.mapCpu Kd11ea.stackLimit
    dsimp only
    split <;> rfl

/-- What a round makes smaller: the stack limit can be violated once, as the trap it leads to
sets `inhov`, and the power fails once. -/
def pending (inhov : Bool) (traps : Traps) : ℕ :=
  (if inhov then (if traps.stack then 1 else 0) else 2) + if traps.pwr then 1 else 0

theorem pending_of_keeps {inhov : Bool} {s t : Machine} (h : KeepsTraps inhov s t) :
    pending inhov t.cpu.traps ≤ pending inhov s.cpu.traps := by
  obtain ⟨hpwr, hstack⟩ := h
  unfold pending
  rw [hpwr]
  cases inhov with
  | false => exact Nat.le_refl _
  | true => rw [hstack rfl]

theorem pending_stack (inhov : Bool) {traps : Traps} (h : traps.stack = true) :
    pending true { traps with stack := false } < pending inhov traps := by
  unfold pending
  cases inhov <;> simp [h]

theorem pending_pwr (inhov : Bool) {traps : Traps} (h : traps.pwr = true) :
    pending inhov { traps with pwr := false } < pending inhov traps := by
  unfold pending
  simp [h]

/-! ## Rounds -/

/-- The step called in `m` comes to `trap:` in `s`. -/
def Entered (bus : Bus) (m : Machine) (s : Round) : Prop :=
  ∃ s₀, stepStart bus m = .inr s₀ ∧ Loop.Reaches (trapRound bus) s₀ s

/-- A reference of the trap sequence fails. -/
def Fails (bus : Bus) (s : Round) : Prop := ∃ t, trapSequence bus s.inhov s.machine = .error () t

/-- The reference to the first vector word fails. -/
def Lost (bus : Bus) (s : Round) : Prop := ∃ t, vectorFetch bus s.machine = .error () t

/-- The trap sequence loads a PSW with T set. -/
def Retraces (bus : Bus) (s : Round) : Prop :=
  ∃ t, trapSequence bus s.inhov s.machine = .ok () t ∧ t.cpu.psw.getLsbD 4 = true

theorem trapRound_of_ok {s : Round} {m : Machine}
    (h : trapSequence bus s.inhov s.machine = .ok () m) :
    trapRound bus s = service m s.inhov (m.cpu.psw.getLsbD 4) := by
  unfold trapRound
  rw [h]

theorem trapRound_of_error {s : Round} {m : Machine}
    (h : trapSequence bus s.inhov s.machine = .error () m) :
    trapRound bus s = busError m s.inhov none := by
  unfold trapRound
  rw [h]

/-- A failed trap sequence stops the machine iff it is the first vector word that is lost, and
in answer to another failed reference. -/
theorem halts_iff {s : Round} (hfails : Fails bus s) :
    (∃ m, trapRound bus s = .inl (.doubleBusError true, m) ∧ m.cpu.state = .halted) ↔
      1 ≤ s.machine.cpu.be ∧ Lost bus s := by
  obtain ⟨t, ht⟩ := hfails
  have hbe := vectorFetch_be bus s.machine
  rw [trapRound_of_error ht]
  cases hvector : vectorFetch bus s.machine with
  | error _ u =>
      rw [hvector] at hbe
      rw [trapSequence_of_lost _ hvector] at ht
      cases ht
      unfold busError
      split
      case isTrue hlt => exact ⟨fun _ => ⟨by omega, _, hvector⟩, fun _ => ⟨_, rfl, rfl⟩⟩
      case isFalse hlt =>
        refine ⟨?_, fun h => absurd h.1 (by omega)⟩
        rintro ⟨_, hinl, -⟩
        cases hinl
  | ok newpc u =>
      rw [hvector] at hbe
      rw [trapSequence_of_found _ hvector] at ht
      have hone := trapRest_be bus s.inhov (s.machine.cpu.r 7) s.machine.cpu.psw newpc u hbe
      rw [ht] at hone
      unfold busError
      rw [if_neg (by omega)]
      constructor
      · rintro ⟨_, hinl, -⟩
        cases hinl
      · rintro ⟨-, _, hlost⟩
        rw [hvector] at hlost
        cases hlost

/-- A round which succeeds and is followed by another leaves less to do, if it is not T that
leads there. -/
theorem pending_of_round {s t : Round} (hfails : ¬Fails bus s)
    (hround : trapRound bus s = .inr t) :
    pending t.inhov t.machine.cpu.traps ≤ pending s.inhov s.machine.cpu.traps ∧
      (¬Retraces bus s →
        pending t.inhov t.machine.cpu.traps < pending s.inhov s.machine.cpu.traps) := by
  have hkeeps := (trapRel_traps bus s.inhov).trapSequence s.machine
  cases hres : trapSequence bus s.inhov s.machine with
  | error _ m => exact absurd ⟨m, hres⟩ hfails
  | ok _ m =>
      rw [hres] at hkeeps
      have hle := pending_of_keeps hkeeps
      have hretraces : m.cpu.psw.getLsbD 4 = true → Retraces bus s := fun hT => ⟨m, hres, hT⟩
      rw [trapRound_of_ok hres] at hround
      unfold service trapTo at hround
      split_ifs at hround with hT hstack hpwr <;> cases hround
      · exact ⟨hle, fun h => absurd (hretraces hT) h⟩
      · have hlt := (pending_stack s.inhov hstack).trans_le hle
        exact ⟨hlt.le, fun _ => hlt⟩
      · have hlt := (pending_pwr s.inhov hpwr).trans_le hle
        exact ⟨hlt.le, fun _ => hlt⟩

/-! ## Returning -/

/-- A step returns after a bounded number of references, and a trap sequence that fails is the
end of it, with the machine halted. -/
structure Stops (bus : Bus) (m : Machine) : Prop where
  returns : ∃ n why m', finish bus n (stepStart bus m) = some (why, m') ∧
    m'.bus.references ≤ m.bus.references + 8 + 4 * n
  halts : ∀ s, Entered bus m s → Fails bus s →
    ∃ m', trapRound bus s = .inl (.doubleBusError true, m') ∧ m'.cpu.state = .halted

/-- Once every failed trap sequence halts, a step returns iff T does not trace the rounds of the
trap sequence for ever. -/
theorem returns_iff {m : Machine}
    (hhalts : ∀ s, Entered bus m s → Fails bus s → ∃ stop, trapRound bus s = .inl stop) :
    (∃ n why m', finish bus n (stepStart bus m) = some (why, m')) ↔
      ∀ s, Entered bus m s → ∃ t, Loop.Reaches (trapRound bus) s t ∧ ¬Retraces bus t := by
  cases hstart : stepStart bus m with
  | inl stop =>
      refine ⟨?_, fun _ => ⟨0, stop.1, stop.2, rfl⟩⟩
      rintro - s ⟨s₀, hs₀, -⟩
      rw [hstart] at hs₀
      cases hs₀
  | inr s₀ =>
      have hnext : ∀ t u, Loop.Reaches (trapRound bus) s₀ t → trapRound bus t = .inr u →
          ¬Fails bus t := by
        intro t u hst htu hfails
        obtain ⟨stop, hstop⟩ := hhalts t ⟨s₀, hstart, hst⟩ hfails
        rw [hstop] at htu
        cases htu
      have hloop := Loop.returns_iff_not_forever (f := trapRound bus) (s := s₀)
        (E := Retraces bus) (μ := fun t => pending t.inhov t.machine.cpu.traps)
        (fun t u hst _ htu => (pending_of_round (hnext t u hst htu) htu).1)
        (fun t u hst hE htu => (pending_of_round (hnext t u hst htu) htu).2 hE) (by
          rintro t stop hstop ⟨t', ht', hT⟩
          rw [trapRound_of_ok ht', hT] at hstop
          cases hstop)
      constructor
      · rintro ⟨n, why, m', hn⟩ s ⟨s₁, hs₁, hreach⟩
        rw [hstart] at hs₁
        cases hs₁
        exact hloop.mp ⟨(why, m'), n, hn⟩ s hreach
      · intro hfair
        obtain ⟨⟨why, m'⟩, n, hn⟩ := hloop.mpr fun t hst => hfair t ⟨s₀, hstart, hst⟩
        exact ⟨n, why, m', hn⟩

/-- A step stops as it should iff each of its trap sequences which fails loses the first vector
word, in answer to another failed reference, and no trap handler is traced for ever. -/
theorem stops_iff (bus : Bus) (m : Machine) :
    Stops bus m ↔
      (∀ s, Entered bus m s → Fails bus s → 1 ≤ s.machine.cpu.be ∧ Lost bus s) ∧
        ∀ s, Entered bus m s → ∃ t, Loop.Reaches (trapRound bus) s t ∧ ¬Retraces bus t := by
  constructor
  · rintro ⟨⟨n, why, m', hn, -⟩, hhalts⟩
    have hstop : ∀ s, Entered bus m s → Fails bus s → ∃ stop, trapRound bus s = .inl stop := by
      intro s hs hfails
      obtain ⟨m', hm', -⟩ := hhalts s hs hfails
      exact ⟨_, hm'⟩
    exact ⟨fun s hs hfails => (halts_iff hfails).mp (hhalts s hs hfails),
      (returns_iff hstop).mp ⟨n, why, m', hn⟩⟩
  · rintro ⟨hlost, hfair⟩
    have hhalts := fun s hs hfails => (halts_iff hfails).mpr (hlost s hs hfails)
    have hstop : ∀ s, Entered bus m s → Fails bus s → ∃ stop, trapRound bus s = .inl stop := by
      intro s hs hfails
      obtain ⟨m', hm', -⟩ := hhalts s hs hfails
      exact ⟨_, hm'⟩
    obtain ⟨n, why, m', hn⟩ := (returns_iff hstop).mpr hfair
    refine ⟨⟨n, why, m', hn, ?_⟩, hhalts⟩
    have hstart := stepStart_references bus m
    have hrest := finish_references hn
    unfold AddsReferences at hstart hrest
    omega

/-! ## A step which does not return -/

/-- A bus where everything reads as 0 and can be written. -/
def zeroBus : Bus where
  dati := fun _ _ => some 0
  dato := fun _ _ _ => true
  datob := fun _ _ _ => true

/-- A KD11-EA whose PC and kernel stack pointer are odd. -/
def oddStackMachine : Machine :=
  { created with
    cpu := { created.cpu with
      r := fun i => if i = 6 ∨ i = 7 then 1 else 0
      state := .running } }

/-- The processor on its way round: the vector reads as 0, and the stack pointer stays odd. -/
structure Spinning (cpu : Kd11ea) : Prop where
  psw : cpu.psw = 0
  sp : (cpu.r 6).odd = true
  vector : cpu.r 10 = 4
  autoinc : cpu.autoinc = none
  enabled : cpu.mmu.enabled = false
  maint : cpu.mmu.maint = false

theorem odd_sub_two (w : Word) : (w - 2).odd = w.odd := by
  have hbit : ∀ v : Word, v.odd = decide (v.toNat % 2 = 1) := by
    intro v
    rw [Word.odd, BitVec.getLsbD, Nat.testBit_zero]
  have hsub : (w - 2).toNat % 2 = w.toNat % 2 := by
    rw [BitVec.toNat_sub]
    simp only [BitVec.ofNat_eq_ofNat, BitVec.reduceToNat]
    omega
  rw [hbit, hbit, hsub]

namespace Spinning

/-- Both vector words can be read. -/
theorem dati {m : Machine} (h : Spinning m.cpu) (hba : m.cpu.ba = 4 ∨ m.cpu.ba = 6) :
    ∃ t, Kd11ea.dati zeroBus false m = .ok () t ∧ Spinning t.cpu ∧ t.cpu.bdata = 0 := by
  have hoff : m.cpu.mmu.relocates = false := by
    rw [Kt11d.relocates, h.enabled, h.maint]
    rfl
  have hrelocate := Kt11d.relocate_off hoff m.cpu.ba m.cpu.mmu.accessSpace .read
  have hphysical : m.physical .read = some (Kt11d.unrelocated m.cpu.ba) := by
    rw [Machine.physical, hrelocate]
  have hlow : Kt11d.unrelocated m.cpu.ba < 0o760000 := by
    rcases hba with hba | hba <;> rw [hba] <;> decide
  have hread : Spinning (m.translated .read).cpu := by
    rw [translated_cpu, hrelocate]
    exact ⟨h.psw, h.sp, h.vector, h.autoinc, h.enabled, h.maint⟩
  have hexternal : (m.translated .read).cpu.readInternal (Kt11d.unrelocated m.cpu.ba) = none := by
    rw [readInternal, if_pos hlow]
  have hspec := dati_spec zeroBus false m
  generalize Kd11ea.dati zeroBus false m = result at hspec
  cases hspec with
  | odd _ hodd => rcases hba with hba | hba <;> rw [hba] at hodd <;> cases hodd
  | aborted hpa => rw [hphysical] at hpa; cases hpa
  | internal hpa hint =>
      rw [hphysical] at hpa
      cases hpa
      rw [hexternal] at hint
      cases hint
  | answered _ _ hd =>
      cases hd
      exact ⟨_, rfl, ⟨hread.psw, hread.sp, hread.vector, rfl, hread.enabled, hread.maint⟩, rfl⟩
  | timeout _ _ hd => cases hd

theorem vectorFetch {m : Machine} (h : Spinning m.cpu) :
    ∃ newpc t, Kd11ea.vectorFetch zeroBus m = .ok newpc t ∧ Spinning t.cpu := by
  have hstart : Spinning
      (m.mapCpu fun cpu => { (cpu.setDestRef false).spaceKernel with ba := cpu.r 10 }).cpu :=
    ⟨h.psw, h.sp, h.vector, h.autoinc, h.enabled, h.maint⟩
  obtain ⟨t, ht, hspin, -⟩ := hstart.dati (.inl h.vector)
  have hfetch : Kd11ea.vectorFetch zeroBus m
      = (Kd11ea.dati zeroBus false >>= fun _ => look (·.bdata))
        (m.mapCpu fun cpu => { (cpu.setDestRef false).spaceKernel with ba := cpu.r 10 }) := rfl
  rw [hfetch, bind_ok _ ht]
  exact ⟨_, t, rfl, hspin⟩

/-- `PUSH` moves the stack pointer by a word. -/
theorem push (inhov : Bool) {E : Machine → Prop} : Triple (Spinning ·.cpu) (Kd11ea.push inhov)
    (fun _ m => Spinning m.cpu) E := by
  have hlimit : Triple (Spinning ·.cpu) (update fun cpu => stackLimit cpu (cpu.r 6))
      (fun _ m => Spinning m.cpu) E := by
    refine Triple.modify fun m h => ?_
    unfold Machine.mapCpu stackLimit
    dsimp only
    split
    · exact ⟨h.psw, h.sp, h.vector, h.autoinc, h.enabled, h.maint⟩
    · exact h
  unfold Kd11ea.push when
  refine Triple.bind (Q := fun _ m => Spinning m.cpu) (Triple.modify fun m h => ?_) fun _ =>
    Triple.bind (Q := fun _ m => Spinning m.cpu) (Triple.modify fun m h => ?_) fun _ => ?_
  · exact ⟨h.psw, (odd_sub_two _).trans h.sp, h.vector, h.autoinc, h.enabled, h.maint⟩
  · exact ⟨h.psw, h.sp, h.vector, h.autoinc, h.enabled, h.maint⟩
  · split
    · exact hlimit
    · exact fun m h => h

/-- The odd stack cannot be written. -/
theorem outSp (d : Kd11ea → Word) : Triple (Spinning ·.cpu) (Kd11ea.outSp zeroBus d)
    (fun _ _ => False) fun m => Spinning m.cpu ∧ m.cpu.trapVector = 4 := by
  intro m h
  have hfailed : Kd11ea.outSp zeroBus d m = .error ()
      ((m.mapCpu fun cpu => { cpu with ba := cpu.r 6, bdata := d cpu }).cycleFailed 4) := by
    have hodd : (m.mapCpu fun cpu => { cpu with ba := cpu.r 6, bdata := d cpu }).cpu.ba.odd
        = true := h.sp
    show dato zeroBus false _ = _
    unfold dato
    rw [if_pos ⟨rfl, hodd⟩]
  have hspin : ∀ t : Machine, Spinning t.cpu →
      Spinning (t.cycleFailed 4).cpu ∧ (t.cycleFailed 4).cpu.trapVector = 4 := by
    intro t ht
    unfold Machine.cycleFailed autoincUndo Machine.mapCpu
    dsimp only
    rw [ht.autoinc]
    exact ⟨⟨ht.psw, ht.sp, ht.vector, rfl, ht.enabled, ht.maint⟩, rfl⟩
  rw [hfailed]
  exact hspin _ ⟨h.psw, h.sp, h.vector, h.autoinc, h.enabled, h.maint⟩

theorem setPsw {cpu : Kd11ea} (h : Spinning cpu) : Spinning (cpu.setPsw 0) := by
  unfold Kd11ea.setPsw
  rw [h.psw]
  exact ⟨rfl, h.sp, h.vector, h.autoinc, h.enabled, h.maint⟩

/-- The rest of the trap sequence fails in its first push. -/
theorem trapRest (inhov : Bool) (trappedPc newpc : Word) : Triple (Spinning ·.cpu)
    (Kd11ea.trapRest zeroBus inhov trappedPc 0 newpc) (fun _ _ => False)
    fun m => Spinning m.cpu ∧ m.cpu.trapVector = 4 := by
  have hlook : Triple (fun m : Machine => Spinning m.cpu ∧ m.cpu.bdata = 0) (look (·.bdata))
      (fun newpsw m => Spinning m.cpu ∧ newpsw = 0)
      fun m => Spinning m.cpu ∧ m.cpu.trapVector = 4 := fun m h => h
  unfold Kd11ea.trapRest
  refine Triple.bind (Q := fun _ m => Spinning m.cpu ∧ m.cpu.ba = 6)
    (Triple.modify fun m h => ?_) fun _ =>
    Triple.bind (Q := fun _ m => Spinning m.cpu ∧ m.cpu.bdata = 0) ?_ fun _ =>
    Triple.bind (Q := fun newpsw m => Spinning m.cpu ∧ newpsw = 0) hlook fun newpsw =>
    Triple.bind (Q := fun _ m => Spinning m.cpu ∧ newpsw = 0) (Triple.modify fun m h => ?_)
      fun _ =>
    Triple.bind (Q := fun _ m => Spinning m.cpu) (Triple.modify fun m h => ?_) fun _ =>
    Triple.bind (push inhov) fun _ =>
    Triple.bind (Q := fun _ _ => False) (outSp _) fun _ m h => h.elim
  · exact ⟨⟨h.psw, h.sp, h.vector, h.autoinc, h.enabled, h.maint⟩,
      congrArg (· + 2) h.vector⟩
  · intro m h
    obtain ⟨t, ht, hspin⟩ := h.1.dati (.inr h.2)
    rw [ht]
    exact hspin
  · exact ⟨⟨h.1.psw, h.1.sp, h.1.vector, h.1.autoinc, h.1.enabled, h.1.maint⟩, h.2⟩
  · rw [h.2]
    exact h.1.setPsw

/-- Every round leads to another. -/
theorem round {s : Round} (h : Spinning s.machine.cpu) :
    ∃ t, trapRound zeroBus s = .inr t ∧ Spinning t.machine.cpu := by
  obtain ⟨newpc, t, ht, hspin⟩ := h.vectorFetch
  have hbe := vectorFetch_be zeroBus s.machine
  rw [ht] at hbe
  have hrest := trapRest s.inhov (s.machine.cpu.r 7) newpc t hspin
  have hone := trapRest_be zeroBus s.inhov (s.machine.cpu.r 7) 0 newpc t hbe
  have hseq := trapSequence_of_found s.inhov ht
  rw [h.psw] at hseq
  cases hres : Kd11ea.trapRest zeroBus s.inhov (s.machine.cpu.r 7) 0 newpc t with
  | ok _ u =>
      rw [hres] at hrest
      exact hrest.elim
  | error _ u =>
      rw [hres] at hrest hone hseq
      obtain ⟨hspin, hvector⟩ := hrest
      refine ⟨_, (trapRound_of_error hseq).trans (if_neg (by omega)), ?_⟩
      have hsp : Function.update u.cpu.r 10 u.cpu.trapVector 6 = u.cpu.r 6 :=
        Function.update_of_ne (by decide) _ _
      have hv : Function.update u.cpu.r 10 u.cpu.trapVector 10 = u.cpu.trapVector :=
        Function.update_self _ _ _
      exact ⟨hspin.psw, (congrArg Word.odd hsp).trans hspin.sp, hv.trans hvector, hspin.autoinc, hspin.enabled, hspin.maint⟩

end Spinning

/-- The opcode fetch fails, and then every trap sequence does in its first push, each starting
the next: the step never returns. -/
theorem spinning_never_stops :
    (∀ n, finish zeroBus n (stepStart zeroBus oddStackMachine) = none) ∧
      ¬Stops zeroBus oddStackMachine := by
  obtain ⟨s₀, hstart, hspin⟩ : ∃ s₀, stepStart zeroBus oddStackMachine = .inr s₀ ∧
      Spinning s₀.machine.cpu := ⟨_, rfl, rfl, rfl, rfl, rfl, rfl, rfl⟩
  have hnever : ∀ n, finish zeroBus n (stepStart zeroBus oddStackMachine) = none := by
    intro n
    rw [hstart]
    cases hrun : finish zeroBus n (.inr s₀) with
    | none => rfl
    | some stop =>
        exact absurd ⟨n, hrun⟩ (Loop.not_returns_of_invariant
          (I := fun s : Round => Spinning s.machine.cpu) (fun s hs => hs.round) hspin stop)
  refine ⟨hnever, fun hstops => ?_⟩
  obtain ⟨n, _, _, hn, -⟩ := hstops.returns
  rw [hnever] at hn
  cases hn

end QUniBone.Kd11ea
