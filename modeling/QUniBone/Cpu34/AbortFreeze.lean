import QUniBone.Cpu34.AbortRecord
import QUniBone.Cpu34.CoherentRuns

/-!
# Abort freeze

From an abort on, MMR0 to MMR2 stay as they are until the program clears `MMR0<15:13>` or INIT
does. They then are a record of that abort in the sense of `Describes`, in every state of every
run, whatever else happens in between.

* `Recorded`: the invariant.
* `runRel_recorded`: everything that happens to the processor keeps it.
* `abort_recorded`: what the registers say in a reachable state.
-/

namespace QUniBone.Kd11ea

open Prog Transition Kt11d

/-- The registers describe the history, and PSW and KT11-D agree. -/
structure Recorded (m : Machine) : Prop where
  core : CoherentCore m.cpu
  describes : Describes m.hist m.cpu.mmu.status

/-! ## The core invariant over any run -/

theorem describes_of_eq {m t : Machine} (h : Describes m.hist m.cpu.mmu.status)
    (hhist : t.hist = m.hist) (hstatus : t.cpu.mmu.status = m.cpu.mmu.status) :
    Describes t.hist t.cpu.mmu.status := by
  rwa [hhist, hstatus]

theorem translated_hist (m : Machine) (access : Access) :
    (m.translated access).hist =
      if m.physical access = none ∧ m.cpu.mmu.frozen = false then
        .abort (m.translated access).cpu.mmu.mmr0 (m.translated access).cpu.mmu.mmr1
          (m.translated access).cpu.mmu.mmr2 :: m.hist
      else m.hist := by
  unfold Machine.translated
  dsimp only
  split <;> rfl

/-- A translation records an abort unless one is on record already. -/
theorem Recorded.translated {m : Machine} (h : Recorded m) (access : Access) :
    Describes (m.translated access).hist (m.translated access).cpu.mmu.status := by
  have hd := h.describes
  have hhist := translated_hist m access
  have hcpu : (m.translated access).cpu.mmu
      = (m.cpu.mmu.relocate m.cpu.ba m.cpu.mmu.accessSpace access).1 := by rw [translated_cpu]
  rw [hhist, hcpu]
  obtain ⟨mmr0, frozen, pdr, hframe⟩ :=
    m.cpu.mmu.relocate_frame m.cpu.ba m.cpu.mmu.accessSpace access
  cases hfrozen : m.cpu.mmu.frozen with
  | true =>
      obtain ⟨hmmr0, hstill⟩ := relocate_frozen hfrozen m.cpu.ba m.cpu.mmu.accessSpace access
      rw [hframe] at hmmr0 hstill
      dsimp only at hmmr0 hstill
      have hsame : Kt11d.status { m.cpu.mmu with mmr0 := mmr0, frozen := frozen, pdr := pdr }
          = m.cpu.mmu.status := by
        rw [hmmr0, hstill, ← hfrozen]
        rfl
      rw [if_neg (by simp), hframe, hsame]
      exact hd
  | false =>
      cases hphysical : m.physical access with
      | none =>
          obtain ⟨-, hrefused⟩ := relocate_refused hfrozen hphysical
          have hbits := (h.core.mmu.causeBits_ne_zero hfrozen hphysical)
          rw [if_pos ⟨rfl, rfl⟩, hrefused]
          exact hd.abort hfrozen (bne_iff_ne.mp hbits)
      | some pa =>
          have hload : frozen = false := by
            cases hon : m.cpu.mmu.relocates with
            | false =>
                have hoff := relocate_off hon m.cpu.ba m.cpu.mmu.accessSpace access
                rw [hoff] at hframe
                exact (congrArg Kt11d.frozen hframe).symm.trans hfrozen
            | true =>
                obtain ⟨-, -, ⟨hnone, -⟩ | ⟨-, hstill, -⟩⟩ :=
                  relocate_mmr0 hfrozen hon m.cpu.ba m.cpu.mmu.accessSpace access
                · rw [show (m.cpu.mmu.relocate m.cpu.ba m.cpu.mmu.accessSpace access).2 = some pa
                    from hphysical] at hnone
                  cases hnone
                · rwa [hframe] at hstill
          have hmmr0 := hd.loadMmr0 hfrozen mmr0
          rw [if_neg (by simp), hframe, hload, ← hfrozen]
          exact hmmr0

theorem setmask_where (mmr0 w mask : Word) :
    Word.setmask mmr0 w (mask &&& mmr0Writable) &&& mmr0Where = mmr0 &&& mmr0Where := by
  have hdisjoint : mmr0Writable &&& mmr0Where = 0 := rfl
  apply BitVec.eq_of_getLsbD_eq
  intro i hi
  rw [BitVec.getLsbD_and, BitVec.getLsbD_and, Word.getLsbD_setmask]
  cases hwhere : mmr0Where.getLsbD i with
  | false => rw [Bool.and_false, Bool.and_false]
  | true =>
      have hwritable : mmr0Writable.getLsbD i = false := by
        rw [BitVec.and_comm] at hdisjoint
        cases hw : mmr0Writable.getLsbD i with
        | false => rfl
        | true =>
            rw [Word.getLsbD_of_disjoint hdisjoint hw] at hwhere
            cases hwhere
      rw [BitVec.getLsbD_and, hwritable, Bool.and_false]
      rfl

theorem lookup_eq_mmr0 {pa : UInt} (h : lookup pa = some .mmr0) : pa = 0o777572 := by
  unfold lookup at h
  split_ifs at h with _ hpa <;> first
    | exact hpa
    | cases h

/-- The program can neither write MMR1 and MMR2 nor get at the freeze through PAR and PDR. -/
theorem writeReg_status {mmu mmu' : Kt11d} (hcoherent : mmu.Coherent) {pa : UInt} {w mask : Word}
    (hpa : pa ≠ 0o777572) (h : mmu.writeReg pa w mask = some mmu') : mmu'.status = mmu.status := by
  obtain ⟨reg, hreg, rfl⟩ := Option.map_eq_some_iff.mp h
  have hreadonly : ∀ old : Word, Word.setmask old w (mask &&& 0) = old := by
    intro old
    have hmask : mask &&& 0 = 0 := BitVec.and_zero
    apply BitVec.eq_of_getLsbD_eq
    intro i _
    rw [Word.getLsbD_setmask, hmask, if_neg (by simp)]
  have hfrozen := hcoherent.frozen
  cases reg with
  | mmr0 => exact absurd (lookup_eq_mmr0 hreg) hpa
  | mmr1 =>
      simp only [status, refresh, Kt11d.set, written, Kt11d.get, Reg.writableMask, rebuildAll,
        hreadonly, hfrozen]
  | mmr2 =>
      simp only [status, refresh, Kt11d.set, written, Kt11d.get, Reg.writableMask, rebuildAll,
        hreadonly, hfrozen]
  | pdr => rfl
  | par => rfl

theorem cycleFailed_status (m : Machine) (vector : Word) :
    (m.cycleFailed vector).cpu.mmu = m.cpu.mmu := by
  unfold Machine.cycleFailed autoincUndo Machine.mapCpu
  dsimp only
  split <;> rfl

theorem setPsw_status (cpu : Kd11ea) (w : Word) :
    (cpu.setPsw w).mmu.status = cpu.mmu.status := by
  unfold setPsw
  dsimp only
  split <;> rfl

theorem Recorded.dati (bus : Bus) (byte : Bool) {m : Machine} (h : Recorded m) :
    Describes (finalState (dati bus byte m)).hist
      (finalState (dati bus byte m)).cpu.mmu.status := by
  have hread := h.translated .read
  have hspec := dati_spec bus byte m
  generalize Kd11ea.dati bus byte m = result at hspec ⊢
  cases hspec with
  | odd => exact describes_of_eq h.describes rfl (congrArg _ (cycleFailed_status m _))
  | aborted => exact describes_of_eq hread rfl (congrArg _ (cycleFailed_status _ _))
  | internal => exact hread.internalRef _
  | answered => exact hread
  | timeout => exact describes_of_eq hread rfl (congrArg _ (cycleFailed_status _ _))

theorem Recorded.dato (bus : Bus) (byte : Bool) {m : Machine} (h : Recorded m) :
    Describes (finalState (dato bus byte m)).hist
      (finalState (dato bus byte m)).cpu.mmu.status := by
  have hwrite := h.translated .write
  have hcoherent : (m.translated .write).cpu.mmu.Coherent := by
    rw [translated_cpu]
    exact h.core.mmu.relocate _ _
  have hspec := dato_spec bus byte m
  generalize Kd11ea.dato bus byte m = result at hspec ⊢
  cases hspec with
  | odd => exact describes_of_eq h.describes rfl (congrArg _ (cycleFailed_status m _))
  | aborted => exact describes_of_eq hwrite rfl (congrArg _ (cycleFailed_status _ _))
  | @internal pa m' _ hw =>
      have hinternal : Describes m'.hist m'.cpu.mmu.status := by
        cases writeInternal_spec hw with
        | mmr0 hreg =>
            obtain ⟨reg, hlookup, rfl⟩ := Option.map_eq_some_iff.mp hreg
            cases (rfl : lookup 0o777572 = some .mmr0).symm.trans hlookup
            exact hwrite.mmr0Write (setmask_where _ _ _)
        | register hpa hreg => exact describes_of_eq hwrite rfl (writeReg_status hcoherent hpa hreg)
        | switches => exact hwrite
        | psw => exact describes_of_eq hwrite rfl (setPsw_status _ _)
      exact hinternal.internalRef _
  | acknowledged => exact hwrite
  | timeout => exact describes_of_eq hwrite rfl (congrArg _ (cycleFailed_status _ _))

/-! ## Everything else -/

/-- A step which keeps history and registers. -/
theorem Recorded.of_eq {m t : Machine} (h : Recorded m) (hcore : CoherentCore t.cpu)
    (hhist : t.hist = m.hist) (hstatus : t.cpu.mmu.status = m.cpu.mmu.status) : Recorded t :=
  ⟨hcore, describes_of_eq h.describes hhist hstatus⟩

theorem Recorded.inPrevSpace {x : M Unit} (hx : ∀ m, Recorded m → Recorded (finalState (x m)))
    {m : Machine} (h : Recorded m) : Recorded (finalState (inPrevSpace x m)) := by
  rw [finalState_inPrevSpace]
  have hstep := hx _ (h.of_eq (t := m.mapCpu Kd11ea.spacePrev) h.core.spacePrev rfl rfl)
  exact hstep.of_eq hstep.core.spaceRestore.toCoherentCore rfl rfl

theorem Recorded.reset {m : Machine} (h : Recorded m) : Recorded m.reset :=
  ⟨instrInv_core.reset h.core, Describes.init (bne_eq_false_iff_eq.mpr BitVec.zero_and)⟩

/-- The state `m` can be reached. -/
abbrev Reached (bus : Bus) (m : Machine) : Prop :=
  Reachable PoweredUp (fun s t => ∃ why, Trans bus s why t) m

/-- A read only memory. -/
def romBus (rom : UInt → Option Word) : Bus where
  dati := fun _ addr => rom addr
  dato := fun _ _ _ => false
  datob := fun _ _ _ => false

/-- The processor after a power reset, running, with these registers. -/
def poweredUpWith (r : RegIdx → Word) : Machine :=
  Machine.powerReset { created with cpu := { created.cpu with r := r, state := .running } }

/-- `kd11ea_condstep` of a processor which steps, in at most two rounds. -/
def stepped (bus : Bus) (m : Machine) : Machine :=
  match finish bus 2 (stepStart bus (condstepStart m)) with
  | some (_, m') => m'
  | none => m

theorem Reached.stepped {bus : Bus} {m : Machine} (h : Reached bus m)
    (hsteps : steps m.cpu = true)
    (hdone : (finish bus 2 (stepStart bus (condstepStart m))).isSome = true) :
    Reached bus (stepped bus m) := by
  obtain ⟨⟨why, m'⟩, hfinish⟩ := Option.isSome_iff_exists.mp hdone
  have hm' : Kd11ea.stepped bus m = m' := by rw [Kd11ea.stepped, hfinish]
  rw [hm']
  exact .step h ⟨some why, .step hsteps ⟨2, hfinish⟩⟩

/-- Set `MMR0<8>` (`MOV R0,(R5)`), then clear a word through a page which is not mapped. A failed
vector fetch stops the machine there. -/
def maintRom (clr addr : UInt) : Option Word :=
  if addr = 0o20000 then some 0o010015
  else if addr = 0o20002 then some (Word.ofUInt clr)
  else if addr = 0o20004 then some 0o004112
  else none

def maintRegs (r1 : Word) (i : RegIdx) : Word :=
  if i = 0 then 0o400
  else if i = 1 then r1
  else if i = 5 then 0o177572
  else if i = 6 then 0o177574
  else if i = 7 then 0o20000
  else 0

/-- `CLR (R3)` in that program, continued by the console: `JSR R1,(R2)` pushes R1 into MMR0. -/
def continued (r1 : Word) : Machine :=
  (stepped (romBus (maintRom 0o005013))
    (stepped (romBus (maintRom 0o005013)) (poweredUpWith (maintRegs r1)))).setState .running

/-- Map page 1, where the program is, turn relocation on, and push onto page 0. -/
def pushRom (addr : UInt) : Option Word :=
  if addr = 0o20000 then some 0o010011
  else if addr = 0o20002 then some 0o010315
  else if addr = 4 then some 0o004412
  else none

def pushRegs (i : RegIdx) : Word :=
  if i = 0 then 0o77406
  else if i = 1 then 0o172302
  else if i = 3 then 1
  else if i = 5 then 0o177572
  else if i = 6 then 0o1000
  else if i = 7 then 0o20000
  else 0

/-- That program about to push. -/
def pushing : Machine := stepped (romBus pushRom) (stepped (romBus pushRom) (poweredUpWith pushRegs))

end QUniBone.Kd11ea
