import QUniBone.Cpu34.Coherence
import QUniBone.Lib.Transition

/-!
# Coherence over whole runs

From `kd11ea_power_reset` on, the processor is coherent at every instruction boundary, as long
as no step stops with a double bus error inside the trap sequence while the PSW selects another
mode than kernel. `TRAP` has then forced the access space to the kernel's and nothing puts it
back: a console continue makes the next opcode fetch in the wrong mode.
-/

namespace QUniBone.Kd11ea

open Prog Transition

/-! ## One step -/

/-- What holds after a jump. -/
def JumpCoherent : Jump → Prop
  | .inl (why, m) => (why ≠ .doubleBusError true → Coherent m.cpu) ∧ TrapFailed m.cpu
  | .inr s => CoherentCore s.machine.cpu

theorem jumpCoherent_ret {m : Machine} (why : Stop) (h : Coherent m.cpu) :
    JumpCoherent (.inl (why, m)) :=
  ⟨fun _ => h, h.toCoherentCore, fun _ => h⟩

theorem service_coherent {m : Machine} (inhov t : Bool) (h : Coherent m.cpu) :
    JumpCoherent (service m inhov t) := by
  unfold service trapTo
  split_ifs
  · exact h.toCoherentCore.congr rfl rfl
  · exact h.toCoherentCore.congr rfl rfl
  · exact h.toCoherentCore.congr rfl rfl
  · exact jumpCoherent_ret _ h

/-- A bus error of an instruction finds the access mode current. -/
theorem busError_coherent {m : Machine} (inhov : Bool) (oldpsw : Word) (h : Coherent m.cpu) :
    JumpCoherent (busError m inhov (some oldpsw)) := by
  unfold busError trapTo
  split
  · exact jumpCoherent_ret _ (h.congr rfl rfl)
  · have hcodes := h.codes (CC.ofPsw oldpsw)
    rw [CC.store_ofPsw] at hcodes
    exact hcodes.toCoherentCore.congr rfl rfl

/-- A bus error of the trap sequence may find it overridden. -/
theorem busError_trapFailed {m : Machine} (inhov : Bool) (h : TrapFailed m.cpu) :
    JumpCoherent (busError m inhov none) := by
  unfold busError trapTo
  split
  · refine ⟨fun hne => absurd rfl hne, h.1.congr rfl rfl, fun hmode => ?_⟩
    exact (h.2 hmode).congr rfl rfl
  · exact h.1.congr rfl rfl

theorem stepStart_coherent (bus : Bus) {m : Machine} (h : Coherent m.cpu) :
    JumpCoherent (stepStart bus m) := by
  unfold stepStart
  split
  · exact h.toCoherentCore.congr rfl rfl
  · have hfinal := (instrInv_coherent.instrRel bus).instruction m h
    cases hres : instruction bus m with
    | ok next m' =>
        rw [hres] at hfinal
        cases next with
        | service t => exact service_coherent _ _ hfinal
        | trap v => exact hfinal.toCoherentCore.congr rfl rfl
        | ret => exact jumpCoherent_ret _ hfinal
    | error _ m' =>
        rw [hres] at hfinal
        exact busError_coherent _ _ hfinal

theorem trapRound_coherent (bus : Bus) {s : Round} (h : CoherentCore s.machine.cpu) :
    JumpCoherent (trapRound bus s) := by
  have hseq := trapSequence_coherent bus s.inhov s.machine h
  unfold trapRound
  cases hres : trapSequence bus s.inhov s.machine with
  | ok _ m =>
      rw [hres] at hseq
      exact service_coherent _ _ hseq
  | error _ m =>
      rw [hres] at hseq
      exact busError_trapFailed _ hseq

/-- A step which returns keeps the invariant, unless it returns from a failed vector fetch
in another mode than kernel. -/
theorem step_coherent {bus : Bus} {m m' : Machine} {why : Stop} (h : Coherent m.cpu)
    (hstep : Step bus m why m')
    (hclean : why = .doubleBusError true → m'.cpu.psw.mode = Mode.kernel) :
    Coherent m'.cpu := by
  have hend : JumpCoherent (.inl (why, m')) := by
    obtain ⟨n, hn⟩ := hstep
    have hstart := stepStart_coherent bus h
    cases hj : stepStart bus m with
    | inl stop =>
        rw [hj] at hn hstart
        cases hn
        exact hstart
    | inr s =>
        rw [hj] at hn hstart
        refine Loop.Returns.of_invariant (I := fun s : Round => CoherentCore s.machine.cpu)
          (Q := fun stop => JumpCoherent (.inl stop)) ?_ ?_ ⟨n, hn⟩ hstart
        · intro s t hs hst
          have hround := trapRound_coherent bus hs
          rwa [hst] at hround
        · intro s stop hs hst
          have hround := trapRound_coherent bus hs
          rwa [hst] at hround
  by_cases hwhy : why = .doubleBusError true
  · exact hend.2.2 (hclean hwhy)
  · exact hend.1 hwhy

/-! ## Runs -/

/-- The step did not stop with a double bus error in the trap sequence outside kernel mode. -/
def Clean (why : Option Stop) (m : Machine) : Prop :=
  why = some (.doubleBusError true) → m.cpu.psw.mode = Mode.kernel

theorem powerReset_coherent (m : Machine) : Coherent m.powerReset.cpu :=
  setPsw_coherent Kt11d.coherent_reset 0

theorem condstepStart_coherent {m : Machine} (h : Coherent m.cpu) :
    Coherent (condstepStart m).cpu := by
  unfold condstepStart
  dsimp only
  split_ifs <;> exact h.congr rfl rfl

theorem pwrupVectorFetch_coherent (bus : Bus) {m : Machine} (h : Coherent m.cpu) :
    Coherent (pwrupVectorFetch bus m).cpu := by
  have hR := instrInv_coherent.instrRel bus
  unfold pwrupVectorFetch
  dsimp only
  have hload := hR.bind (hR.update (f := ({ · with ba := 0o24 })) fun _ => rfl) fun _ =>
    hR.bind (hR.dati false) fun _ =>
    hR.bind (hR.update (f := fun cpu => cpu.setR 7 cpu.bdata) fun _ => rfl) fun _ =>
    hR.bind (hR.update (f := ({ · with ba := 0o26 })) fun _ => rfl) fun _ =>
    hR.bind (hR.dati false) fun _ =>
    Graded.modify (n := 0) (f := fun m : Machine => m.setPsw m.cpu.bdata) (ε := Unit)
      fun m hm => setPsw_coherent hm.mmu m.cpu.bdata
  have hfinal := hload m h
  split
  case h_1 hres =>
    rw [hres] at hfinal
    exact hfinal
  case h_2 hres =>
    rw [hres] at hfinal
    exact hfinal.congr rfl rfl

theorem trans_coherent {bus : Bus} {m m' : Machine} {why : Option Stop} (h : Coherent m.cpu)
    (htrans : Trans bus m why m') (hclean : Clean why m') : Coherent m'.cpu := by
  cases htrans with
  | idle => exact condstepStart_coherent h
  | step _ hstep =>
      exact step_coherent (condstepStart_coherent h) hstep fun hwhy => hclean (congrArg some hwhy)
  | console => exact h.congr rfl rfl
  | setintr => exact h.congr rfl rfl
  | pwrfail => exact h.congr rfl rfl
  | reset => exact instrInv_coherent.reset h
  | pwrup => exact pwrupVectorFetch_coherent bus h

/-- The machine after a power reset. -/
def PoweredUp (m : Machine) : Prop := ∃ m₀ : Machine, m = m₀.powerReset

/-- In a run whose steps are clean the processor is coherent at every instruction boundary. -/
theorem coherent_of_clean_run (bus : Bus) (m : Machine)
    (hrun : Reachable PoweredUp (fun s t => ∃ why, Trans bus s why t ∧ Clean why t) m) :
    Coherent m.cpu := by
  refine hrun.invariant (I := fun m : Machine => Coherent m.cpu) ?_ ?_
  · rintro _ ⟨m₀, rfl⟩
    exact powerReset_coherent m₀
  · rintro s t hs ⟨why, htrans, hclean⟩
    exact trans_coherent hs htrans hclean

/-- A KD11-EA as it is created, all zero. -/
def created : Machine where
  cpu :=
    { r := fun _ => 0, b := 0, ba := 0, bdata := 0, ir := 0, psw := 0
      stackpointer := fun _ => 0, traps := ⟨false, false⟩, be := 0, state := .halted
      trapVector := 0, autoinc := none, mmu := Kt11d.zeroed, externalIntr := false
      externalIntrvec := 0, sw := 0 }
  bus := []
  hist := []

/-- The power up vector selects user mode and address 1000. There the words of `code` are, and
every other reference times out. -/
def userVectorBus (code : UInt → Option Word) : Bus where
  dati := fun _ addr => if addr = 0o24 then some 0o1000 else if addr = 0o26 then some 0o140000
    else code addr
  dato := fun _ _ _ => false
  datob := fun _ _ _ => false

/-- The processor powered up through that vector, about to step. -/
def poweredUpRunning (code : UInt → Option Word) : Machine :=
  (pwrupVectorFetch (userVectorBus code) created.powerReset).setState .running

/-- One `NOP` in user mode. -/
theorem coherent_of_clean_run_nop :
    ∃ m, Step (userVectorBus fun _ => some 0o240)
        (condstepStart (poweredUpRunning fun _ => some 0o240)) .service m ∧ Coherent m.cpu := by
  refine ⟨_, ⟨0, rfl⟩, coherent_of_clean_run (userVectorBus fun _ => some 0o240) _ ?_⟩
  refine .step (.step (.step (.init ⟨created, rfl⟩) ⟨none, .pwrup _, ?_⟩)
    ⟨none, .console _ .running, ?_⟩) ⟨some .service, .step rfl ⟨0, rfl⟩, ?_⟩ <;>
  · rintro ⟨⟩

/-! ## The unclean step -/

/-- Power up into user mode, then one step: the opcode fetch fails, and so does the fetch of
vector 4. The machine halts in user mode, its next reference still set to kernel space. -/
theorem coherence_lost_by_halt :
    ¬∀ (bus : Bus) (m : Machine),
      Reachable PoweredUp (fun s t => ∃ why, Trans bus s why t) m → Coherent m.cpu := by
  intro hall
  obtain ⟨m, hstep, hmode, haccess⟩ : ∃ m,
      Step (userVectorBus fun _ => none) (condstepStart (poweredUpRunning fun _ => none))
          (.doubleBusError true) m ∧
        m.cpu.mmu.mode = Mode.user ∧ m.cpu.mmu.accessMode = Mode.kernel := by
    refine ⟨_, ⟨1, rfl⟩, ?_, ?_⟩ <;> rfl
  have hreach : Reachable PoweredUp
      (fun s t => ∃ why, Trans (userVectorBus fun _ => none) s why t) m :=
    .step (.step (.step (.init ⟨created, rfl⟩) ⟨none, .pwrup _⟩) ⟨none, .console _ .running⟩)
      ⟨_, .step rfl hstep⟩
  have h := (hall _ m hreach).accessMode
  rw [hmode, haccess] at h
  revert h
  decide

end QUniBone.Kd11ea
