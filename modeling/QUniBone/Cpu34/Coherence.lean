import QUniBone.Cpu34.Cycles
import QUniBone.Cpu34.Registers
import QUniBone.Cpu34.Traversal

/-!
# MMU and PSW coherence

At an instruction boundary the KT11-D is in the mode the PSW says. The trap sequence leaves
that mode for the kernel's while it reads the vector, so inside it only a part of the
invariant, `CoherentCore`, holds, and a double bus error there stops the machine with the
access mode still overridden.

* `CoherentCore`: everything but the current access mode.
* `Coherent`: the invariant of the instruction boundary.
* `InstrInv.instrRel`, `trapSequence_coherent`: what the two parts of a step keep.
-/

namespace QUniBone.Kd11ea

open Prog

/-- PSW, mode fields, derived state and register bits agree. -/
structure CoherentCore (cpu : Kd11ea) : Prop where
  mmu : cpu.mmu.Coherent
  pswBits : cpu.psw &&& ~~~pswMask = 0
  mode : cpu.mmu.mode = cpu.psw.mode
  prevMode : cpu.mmu.prevMode = cpu.psw.prevMode
  space : cpu.mmu.space = cpu.psw.mode.space
  prevSpace : cpu.mmu.prevSpace = cpu.psw.prevMode.space

/-- And the next reference is made in the current mode. -/
structure Coherent (cpu : Kd11ea) : Prop extends CoherentCore cpu where
  accessSpace : cpu.mmu.accessSpace = cpu.mmu.space
  accessMode : cpu.mmu.accessMode = cpu.mmu.mode

/-! ## Single updates -/

theorem store_mode (cc : CC) (psw : Word) : (cc.store psw).mode = psw.mode := by
  ext i hi
  have h := cc.store_getLsbD psw (i := 14 + i) (by omega)
  simpa [Word.mode, BitVec.getElem_extractLsb'] using h

theorem store_prevMode (cc : CC) (psw : Word) : (cc.store psw).prevMode = psw.prevMode := by
  ext i hi
  have h := cc.store_getLsbD psw (i := 12 + i) (by omega)
  simpa [Word.prevMode, BitVec.getElem_extractLsb'] using h

theorem store_pswBits {psw : Word} (cc : CC) (h : psw &&& ~~~pswMask = 0) :
    cc.store psw &&& ~~~pswMask = 0 := by
  rw [Word.and_not_eq_zero] at h ⊢
  intro i hi
  have hge : 4 ≤ i := by
    by_contra hlt
    have hlt : i < 4 := by omega
    clear h
    interval_cases i <;> revert hi <;> decide
  rw [cc.store_getLsbD psw hge]
  exact h i hi

/-- `kd11ea_set_psw` makes everything current, whatever PSW and access mode were. -/
theorem setPsw_coherent {cpu : Kd11ea} (hmmu : cpu.mmu.Coherent) (w : Word) :
    Coherent (cpu.setPsw w) := by
  have hbits : w &&& pswMask &&& ~~~pswMask = 0 := by
    rw [Word.and_not_eq_zero]
    intro i hi
    rw [BitVec.getLsbD_and, hi, Bool.and_false]
  unfold setPsw
  dsimp only
  split
  all_goals exact {
    mmu := hmmu.setModes _
    pswBits := hbits
    mode := rfl
    prevMode := rfl
    space := rfl
    prevSpace := rfl
    accessSpace := rfl
    accessMode := rfl }

namespace CoherentCore

variable {cpu : Kd11ea}

/-- Only the KT11-D and the PSW matter. -/
theorem congr {cpu' : Kd11ea} (h : CoherentCore cpu) (hmmu : cpu'.mmu = cpu.mmu)
    (hpsw : cpu'.psw = cpu.psw) : CoherentCore cpu' where
  mmu := hmmu ▸ h.mmu
  pswBits := hpsw ▸ h.pswBits
  mode := by rw [hmmu, hpsw]; exact h.mode
  prevMode := by rw [hmmu, hpsw]; exact h.prevMode
  space := by rw [hmmu, hpsw]; exact h.space
  prevSpace := by rw [hmmu, hpsw]; exact h.prevSpace

theorem codes (h : CoherentCore cpu) (cc : CC) :
    CoherentCore { cpu with psw := cc.store cpu.psw } where
  mmu := h.mmu
  pswBits := store_pswBits cc h.pswBits
  mode := h.mode.trans (store_mode cc cpu.psw).symm
  prevMode := h.prevMode.trans (store_prevMode cc cpu.psw).symm
  space := h.space.trans (congrArg Mode.space (store_mode cc cpu.psw).symm)
  prevSpace := h.prevSpace.trans (congrArg Mode.space (store_prevMode cc cpu.psw).symm)

/-- The KT11-D replaced by one in the same modes. -/
theorem setMmu (h : CoherentCore cpu) {mmu : Kt11d} (hmmu : mmu.Coherent)
    (hmode : mmu.mode = cpu.mmu.mode) (hprev : mmu.prevMode = cpu.mmu.prevMode)
    (hspace : mmu.space = cpu.mmu.space) (hprevSpace : mmu.prevSpace = cpu.mmu.prevSpace) :
    CoherentCore { cpu with mmu := mmu } where
  mmu := hmmu
  pswBits := h.pswBits
  mode := hmode.trans h.mode
  prevMode := hprev.trans h.prevMode
  space := hspace.trans h.space
  prevSpace := hprevSpace.trans h.prevSpace

theorem spaceKernel (h : CoherentCore cpu) : CoherentCore cpu.spaceKernel :=
  h.setMmu (h.mmu.setAccess Mode.kernel) rfl rfl rfl rfl

theorem spacePrev (h : CoherentCore cpu) : CoherentCore cpu.spacePrev := by
  have hspace : cpu.mmu.prevSpace = cpu.mmu.prevMode.space := by rw [h.prevSpace, h.prevMode]
  refine h.setMmu ?_ rfl rfl rfl rfl
  rw [hspace]
  exact h.mmu.setAccess _

theorem spaceRestore (h : CoherentCore cpu) : Coherent cpu.spaceRestore := by
  have hspace : cpu.mmu.space = cpu.mmu.mode.space := by rw [h.space, h.mode]
  have hmmu : (cpu.mmu.setAccess cpu.mmu.space cpu.mmu.mode).Coherent := by
    rw [hspace]
    exact h.mmu.setAccess _
  exact { h.setMmu hmmu rfl rfl rfl rfl with
    accessSpace := rfl
    accessMode := rfl }

end CoherentCore

namespace Coherent

variable {cpu : Kd11ea}

theorem congr {cpu' : Kd11ea} (h : Coherent cpu) (hmmu : cpu'.mmu = cpu.mmu)
    (hpsw : cpu'.psw = cpu.psw) : Coherent cpu' :=
  { h.toCoherentCore.congr hmmu hpsw with
    accessSpace := by rw [hmmu]; exact h.accessSpace
    accessMode := by rw [hmmu]; exact h.accessMode }

theorem codes (h : Coherent cpu) (cc : CC) : Coherent { cpu with psw := cc.store cpu.psw } :=
  { h.toCoherentCore.codes cc with
    accessSpace := h.accessSpace
    accessMode := h.accessMode }

/-- The KT11-D replaced by one in the same modes. -/
theorem setMmu (h : Coherent cpu) {mmu : Kt11d} (hmmu : mmu.Coherent)
    (hmode : mmu.mode = cpu.mmu.mode) (hprev : mmu.prevMode = cpu.mmu.prevMode)
    (hspace : mmu.space = cpu.mmu.space) (hprevSpace : mmu.prevSpace = cpu.mmu.prevSpace)
    (haccess : mmu.accessSpace = cpu.mmu.accessSpace)
    (haccessMode : mmu.accessMode = cpu.mmu.accessMode) : Coherent { cpu with mmu := mmu } :=
  { h.toCoherentCore.setMmu hmmu hmode hprev hspace hprevSpace with
    accessSpace := haccess.trans (h.accessSpace.trans hspace.symm)
    accessMode := haccessMode.trans (h.accessMode.trans hmode.symm) }

/-- In kernel mode the core is the whole invariant, once the access mode is the kernel's. -/
theorem of_kernel (h : CoherentCore cpu) (hspace : cpu.mmu.accessSpace = .kernel)
    (hmode : cpu.mmu.accessMode = Mode.kernel) (hpsw : cpu.psw.mode = Mode.kernel) :
    Coherent cpu :=
  { h with
    accessSpace := by rw [hspace, h.space, hpsw]; rfl
    accessMode := by rw [hmode, h.mode, hpsw] }

end Coherent

/-! ## Bus cycles -/

/-- A property of the processor which reading keeps. -/
structure ReadInv (I : Kd11ea → Prop) : Prop where
  congr : ∀ {cpu cpu' : Kd11ea}, I cpu → cpu'.mmu = cpu.mmu → cpu'.psw = cpu.psw → I cpu'
  relocate : ∀ {cpu : Kd11ea} (va : Word) (access : Access), I cpu →
    I { cpu with mmu := (cpu.mmu.relocate va cpu.mmu.accessSpace access).1 }

/-- A property of the processor which reading and writing keep. -/
structure CycleInv (I : Kd11ea → Prop) : Prop extends ReadInv I where
  writeReg : ∀ {cpu : Kd11ea} {pa : UInt} {w mask : Word} {mmu : Kt11d}, I cpu →
    cpu.mmu.writeReg pa w mask = some mmu → I { cpu with mmu := mmu }
  setPsw : ∀ {cpu : Kd11ea} (w : Word), I cpu → I (cpu.setPsw w)

section

variable {I : Kd11ea → Prop}

theorem ReadInv.translated (hI : ReadInv I) {m : Machine} (h : I m.cpu) (access : Access) :
    I (m.translated access).cpu := by
  rw [translated_cpu]
  exact hI.relocate _ _ h

theorem ReadInv.cycleFailed (hI : ReadInv I) {m : Machine} (h : I m.cpu) (vector : Word) :
    I (m.cycleFailed vector).cpu := by
  refine hI.congr h ?_ ?_ <;>
  · unfold Machine.cycleFailed autoincUndo Machine.mapCpu
    dsimp only
    split <;> rfl

theorem ReadInv.cycleOk (hI : ReadInv I) {m : Machine} (h : I m.cpu) : I m.cycleOk.cpu :=
  hI.congr h rfl rfl

theorem ReadInv.dati (hI : ReadInv I) (bus : Bus) (byte : Bool) {m : Machine} (h : I m.cpu) :
    I (finalState (dati bus byte m)).cpu := by
  have hread := hI.translated h .read
  have hload : ∀ (t : Machine) (w : Word), I t.cpu → I (t.mapCpu ({ · with bdata := w })).cpu :=
    fun t w ht => hI.congr ht rfl rfl
  have hspec := dati_spec bus byte m
  generalize Kd11ea.dati bus byte m = result at hspec ⊢
  cases hspec with
  | odd => exact hI.cycleFailed h _
  | aborted => exact hI.cycleFailed hread _
  | internal => exact hI.cycleOk (hload _ _ hread)
  | answered => exact hI.cycleOk (hload _ _ hread)
  | timeout => exact hI.cycleFailed hread _

theorem CycleInv.writeInternal (hI : CycleInv I) {m m' : Machine} {pa : UInt} {byte : Bool}
    (h : I m.cpu) (hw : m.writeInternal pa byte = some m') : I m'.cpu := by
  cases writeInternal_spec hw with
  | mmr0 hreg => exact hI.writeReg h hreg
  | register _ hreg => exact hI.writeReg h hreg
  | switches => exact h
  | psw => exact hI.setPsw _ h

theorem CycleInv.dato (hI : CycleInv I) (bus : Bus) (byte : Bool) {m : Machine} (h : I m.cpu) :
    I (finalState (dato bus byte m)).cpu := by
  have hwrite := hI.translated h .write
  have hspec := dato_spec bus byte m
  generalize Kd11ea.dato bus byte m = result at hspec ⊢
  cases hspec with
  | odd => exact hI.cycleFailed h _
  | aborted => exact hI.cycleFailed hwrite _
  | @internal pa m' _ hw =>
      have hinternal : I m'.cpu := hI.writeInternal hwrite hw
      exact hI.cycleOk (m := m'.note _) hinternal
  | acknowledged => exact hI.cycleOk hwrite
  | timeout => exact hI.cycleFailed hwrite _

end

/-! ## Instructions -/

/-- A property of KT11-D and PSW which the instructions keep. -/
structure InstrInv (I : Kd11ea → Prop) : Prop where
  core : ∀ {cpu : Kd11ea}, I cpu → CoherentCore cpu
  congr : ∀ {cpu cpu' : Kd11ea}, I cpu → cpu'.mmu = cpu.mmu → cpu'.psw = cpu.psw → I cpu'
  codes : ∀ {cpu : Kd11ea} (cc : CC), I cpu → I { cpu with psw := cc.store cpu.psw }
  setMmu : ∀ {cpu : Kd11ea} {mmu : Kt11d}, I cpu → mmu.Coherent → mmu.mode = cpu.mmu.mode →
    mmu.prevMode = cpu.mmu.prevMode → mmu.space = cpu.mmu.space →
    mmu.prevSpace = cpu.mmu.prevSpace → mmu.accessSpace = cpu.mmu.accessSpace →
    mmu.accessMode = cpu.mmu.accessMode → I { cpu with mmu := mmu }
  setPsw : ∀ {cpu : Kd11ea} (w : Word), I cpu → I (cpu.setPsw w)
  restore : ∀ {cpu : Kd11ea}, CoherentCore cpu → I cpu.spaceRestore

theorem instrInv_core : InstrInv CoherentCore where
  core := id
  congr := CoherentCore.congr
  codes := fun cc h => h.codes cc
  setMmu := fun h hmmu hmode hprev hspace hprevSpace _ _ =>
    h.setMmu hmmu hmode hprev hspace hprevSpace
  setPsw := fun w h => (setPsw_coherent h.mmu w).toCoherentCore
  restore := fun h => h.spaceRestore.toCoherentCore

theorem instrInv_coherent : InstrInv Coherent where
  core := Coherent.toCoherentCore
  congr := Coherent.congr
  codes := fun cc h => h.codes cc
  setMmu := fun h => h.setMmu
  setPsw := fun w h => setPsw_coherent h.mmu w
  restore := CoherentCore.spaceRestore

section

variable {I : Kd11ea → Prop}

theorem InstrInv.cycleInv (hI : InstrInv I) : CycleInv I where
  congr := hI.congr
  relocate := by
    intro cpu va access h
    have hmmu := (hI.core h).mmu.relocate va access
    obtain ⟨_, _, _, heq⟩ := cpu.mmu.relocate_frame va cpu.mmu.accessSpace access
    rw [heq] at hmmu ⊢
    exact hI.setMmu h hmmu rfl rfl rfl rfl rfl rfl
  writeReg := by
    intro cpu pa w mask mmu h hreg
    obtain ⟨hmode, hprev, hspace, hprevSpace, haccess, hamode⟩ := Kt11d.writeReg_frame hreg
    exact hI.setMmu h ((hI.core h).mmu.writeReg hreg) hmode hprev hspace hprevSpace haccess hamode
  setPsw := hI.setPsw

theorem finalState_inPrevSpace (x : M Unit) (m : Machine) :
    finalState (inPrevSpace x m)
      = (finalState (x (m.mapCpu spacePrev))).mapCpu spaceRestore := by
  have hbind : inPrevSpace x m = finallyDo x (·.mapCpu spaceRestore) (m.mapCpu spacePrev) := rfl
  rw [hbind, finalState_finallyDo]

theorem InstrInv.of_quiet (hI : InstrInv I) {s t : Machine} (h : I s.cpu)
    (hquiet : s.quiet = t.quiet) : I t.cpu := by
  have hpsw : t.cpu.psw = s.cpu.psw := congrArg (·.cpu.psw) hquiet.symm
  have hmmu : t.cpu.mmu = { s.cpu.mmu with destRef := t.cpu.mmu.destRef } :=
    congrArg (fun m : Machine => { m.cpu.mmu with destRef := t.cpu.mmu.destRef }) hquiet.symm
  have hset := hI.setMmu h ((hI.core h).mmu.setDestRef t.cpu.mmu.destRef) rfl rfl rfl rfl rfl rfl
  exact hI.congr hset hmmu hpsw

theorem InstrInv.reset (hI : InstrInv I) {cpu : Kd11ea} (h : I cpu) : I cpu.reset :=
  hI.congr (hI.setMmu h (hI.core h).mmu.init rfl rfl rfl rfl rfl rfl) rfl rfl

/-- Every primitive of the instructions keeps the property. -/
theorem InstrInv.instrRel (hI : InstrInv I) (bus : Bus) :
    InstrRel bus (ungraded fun s t => I s.cpu → I t.cpu) where
  toGraded := graded_ungraded (fun _ h => h) fun _ _ _ hst htu h => htu (hst h)
  quiet := fun _ _ hquiet h => hI.of_quiet h hquiet
  codes := fun _ cc h => hI.codes cc h
  dati := fun byte _ h => hI.cycleInv.dati bus byte h
  dato := fun byte _ h => hI.cycleInv.dato bus byte h
  prevDati := by
    intro m h
    rw [finalState_inPrevSpace]
    exact hI.restore (instrInv_core.cycleInv.dati bus false (hI.core h).spacePrev)
  prevDato := by
    intro m h
    rw [finalState_inPrevSpace]
    exact hI.restore (instrInv_core.cycleInv.dato bus false (hI.core h).spacePrev)
  log := by
    intro r amount m h
    have hframe : ∃ mmr1 count, m.cpu.mmu.logRegister r amount
        = { m.cpu.mmu with mmr1 := mmr1, mmr1Count := count } := by
      unfold Kt11d.logRegister
      split <;> exact ⟨_, _, rfl⟩
    obtain ⟨mmr1, count, heq⟩ := hframe
    have hmmu := (hI.core h).mmu.logRegister r amount
    have hset := hI.setMmu h hmmu (by rw [heq]) (by rw [heq]) (by rw [heq]) (by rw [heq])
      (by rw [heq]) (by rw [heq])
    exact hI.congr hset rfl rfl
  started := by
    intro m h
    refine hI.congr (hI.setMmu h (hI.core h).mmu.instructionStart ?_ ?_ ?_ ?_ ?_ ?_) rfl rfl <;>
    · unfold Kt11d.instructionStart
      split <;> rfl
  fetched := by
    intro m h
    have hmmu := (hI.core h).mmu.instructionFetched (m.cpu.r 7)
    refine hI.congr (hI.setMmu h hmmu ?_ ?_ ?_ ?_ ?_ ?_) rfl rfl <;>
    · unfold Kt11d.instructionFetched
      split <;> rfl
  mtps := fun _ h => hI.setPsw _ h
  rti := fun _ _ h => hI.setPsw _ h
  prevRegister := by
    intro m df b h
    refine hI.congr h ?_ ?_ <;>
    · unfold Machine.mapCpu setPrevRegister
      dsimp only
      split <;> rfl
  halt := fun _ _ h => hI.congr h rfl rfl
  wait := fun _ h => hI.congr h rfl rfl
  reset := fun _ _ h => hI.reset h

end

/-! ## The trap sequence -/

/-- The next reference is made in kernel mode, whatever mode the PSW says. -/
structure InKernel (cpu : Kd11ea) : Prop extends CoherentCore cpu where
  accessSpace : cpu.mmu.accessSpace = .kernel
  accessMode : cpu.mmu.accessMode = Mode.kernel

theorem readInv_inKernel : ReadInv InKernel where
  congr := fun h hmmu hpsw =>
    { h.toCoherentCore.congr hmmu hpsw with
      accessSpace := by rw [hmmu]; exact h.accessSpace
      accessMode := by rw [hmmu]; exact h.accessMode }
  relocate := by
    intro cpu va access h
    have hcore := instrInv_core.cycleInv.relocate va access h.toCoherentCore
    obtain ⟨_, _, _, heq⟩ := cpu.mmu.relocate_frame va cpu.mmu.accessSpace access
    rw [heq] at hcore ⊢
    exact { hcore with
      accessSpace := h.accessSpace
      accessMode := h.accessMode }

/-- What an exit of the trap sequence leaves. -/
def TrapFailed (cpu : Kd11ea) : Prop :=
  CoherentCore cpu ∧ (cpu.psw.mode = Mode.kernel → Coherent cpu)

theorem trapSequence_coherent (bus : Bus) (inhov : Bool) :
    Triple (CoherentCore ·.cpu) (trapSequence bus inhov) (fun _ m => Coherent m.cpu)
      (TrapFailed ·.cpu) := by
  have hR := instrInv_coherent.instrRel bus
  have hcoherent : ∀ {n : ℕ} {x : M Unit},
      Within (ungraded fun s t : Machine => Coherent s.cpu → Coherent t.cpu) n x →
      Triple (Coherent ·.cpu) x (fun _ m => Coherent m.cpu) (TrapFailed ·.cpu) := by
    intro n x hx
    exact (Triple.of_within (I := fun m : Machine => Coherent m.cpu) hx).conseq (fun _ h => h)
      (fun _ _ h => h) fun _ h => ⟨h.toCoherentCore, fun _ => h⟩
  have hread : Triple (InKernel ·.cpu) (dati bus false) (fun _ m => InKernel m.cpu)
      (TrapFailed ·.cpu) := by
    intro m h
    have hfinal := readInv_inKernel.dati bus false h
    cases hres : dati bus false m with
    | ok _ m' => rwa [hres] at hfinal
    | error _ m' =>
        rw [hres] at hfinal
        exact ⟨hfinal.toCoherentCore,
          Coherent.of_kernel hfinal.toCoherentCore hfinal.accessSpace hfinal.accessMode⟩
  have hlook : ∀ {α : Type} {P : Machine → Prop} (f : Kd11ea → α),
      Triple P (look f) (fun _ => P) (TrapFailed ·.cpu) := fun f m h => h
  have hba : ∀ f : Kd11ea → Word,
      Triple (InKernel ·.cpu) (update fun cpu => { cpu with ba := f cpu })
        (fun _ m => InKernel m.cpu) (TrapFailed ·.cpu) :=
    fun f => Triple.modify fun m h => readInv_inKernel.congr h rfl rfl
  have hvector : Triple (CoherentCore ·.cpu) (vectorFetch bus) (fun _ m => InKernel m.cpu)
      (TrapFailed ·.cpu) := by
    unfold vectorFetch
    refine Triple.bind (Q := fun _ m => CoherentCore m.cpu) (Triple.modify fun m h => ?_)
      fun _ => Triple.bind (Q := fun _ m => InKernel m.cpu) (Triple.modify fun m h => ?_)
      fun _ => Triple.bind (hba _) fun _ => Triple.bind hread fun _ => hlook _
    · exact h.setMmu (h.mmu.setDestRef false) rfl rfl rfl rfl
    · exact { h.spaceKernel with
        accessSpace := rfl
        accessMode := rfl }
  have hrest : ∀ trappedPc trappedPsw newpc, Triple (InKernel ·.cpu)
      (trapRest bus inhov trappedPc trappedPsw newpc) (fun _ m => Coherent m.cpu)
      (TrapFailed ·.cpu) := by
    intro trappedPc trappedPsw newpc
    unfold trapRest
    refine Triple.bind (hba _) fun _ => Triple.bind hread fun _ => Triple.bind (hlook _) fun _ =>
      Triple.bind (Q := fun _ m => Coherent m.cpu) (Triple.modify fun m h => ?_) fun _ =>
      Triple.bind (Q := fun _ m => Coherent m.cpu) (Triple.modify fun m h => ?_) fun _ =>
      Triple.bind (hcoherent (hR.push inhov)) fun _ =>
      Triple.bind (hcoherent (hR.outSp _)) fun _ =>
      Triple.bind (hcoherent (hR.push inhov)) fun _ =>
      Triple.bind (hcoherent (hR.outSp _)) fun _ => hcoherent (hR.update fun _ => rfl)
    · exact h.toCoherentCore.spaceRestore
    · exact setPsw_coherent h.mmu _
  unfold trapSequence
  exact Triple.bind (hlook _) fun _ => Triple.bind (hlook _) fun _ =>
    Triple.bind hvector fun _ => hrest _ _ _

end QUniBone.Kd11ea
