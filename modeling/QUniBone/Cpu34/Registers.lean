import QUniBone.Cpu34.Translation

/-!
# The KT11-D registers stay coherent

Every operation of the KT11-D keeps the derived state in step with the registers and leaves
the bits that do not exist clear.
-/

namespace QUniBone.Kt11d

/-- The bits MMR0 has: `<15:13>`, `<8>`, `<6:5>`, `<3:1>` and `<0>`. -/
abbrev mmr0Exists : Word := 0o160557

/-- No bit is set which does not exist. -/
structure BitsExist (mmu : Kt11d) : Prop where
  mmr0 : mmu.mmr0 &&& ~~~mmr0Exists = 0
  par : ∀ i, mmu.par i &&& ~~~parWritable = 0
  pdr : ∀ i, mmu.pdr i &&& ~~~pdrWritable = 0

/-- Derived state and registers agree, and the registers hold existing bits only. -/
structure Coherent (mmu : Kt11d) : Prop extends Derived mmu, BitsExist mmu

/-- A masked write sets bits of the mask only. -/
theorem setmask_exists {old w mask exist : Word} (hold : old &&& ~~~exist = 0)
    (hmask : ∀ i, exist.getLsbD i = false → mask.getLsbD i = false) :
    Word.setmask old w mask &&& ~~~exist = 0 := by
  rw [Word.and_not_eq_zero] at hold ⊢
  intro i hi
  rw [Word.getLsbD_setmask, hmask i hi]
  exact hold i hi

theorem and_mask_getLsbD (mask : Word) {m exist : Word} (hm : m &&& ~~~exist = 0) {i : ℕ}
    (hi : exist.getLsbD i = false) : (mask &&& m).getLsbD i = false := by
  rw [BitVec.getLsbD_and, Word.and_not_eq_zero.mp hm i hi, Bool.and_false]

theorem and_aborts_ne_zero {w : Word} {i : ℕ} (hi : mmr0Aborts.getLsbD i = true)
    (hw : w.getLsbD i = true) : (w &&& mmr0Aborts != 0) = true := by
  rw [bne_iff_ne]
  intro h
  rw [Word.getLsbD_of_disjoint h hi] at hw
  cases hw

namespace Coherent

variable {mmu : Kt11d}

theorem setAccess (h : Coherent mmu) (mode : Mode) :
    Coherent (mmu.setAccess mode.space mode) where
  page := h.page
  enabled := h.enabled
  frozen := h.frozen
  maint := h.maint
  accessSpace := rfl
  accessIllegal := rfl
  mmr0 := h.mmr0
  par := h.par
  pdr := h.pdr

theorem setModes (h : Coherent mmu) (psw : Word) : Coherent (mmu.setModes psw) where
  page := h.page
  enabled := h.enabled
  frozen := h.frozen
  maint := h.maint
  accessSpace := rfl
  accessIllegal := rfl
  mmr0 := h.mmr0
  par := h.par
  pdr := h.pdr

theorem setDestRef (h : Coherent mmu) (isDest : Bool) :
    Coherent { mmu with destRef := isDest } where
  page := h.page
  enabled := h.enabled
  frozen := h.frozen
  maint := h.maint
  accessSpace := h.accessSpace
  accessIllegal := h.accessIllegal
  mmr0 := h.mmr0
  par := h.par
  pdr := h.pdr

/-- MMR1 and MMR2 are not part of the derived state. -/
theorem setRestart (h : Coherent mmu) (mmr1 mmr2 : Word) (count : ℕ) :
    Coherent { mmu with mmr1 := mmr1, mmr2 := mmr2, mmr1Count := count } where
  page := h.page
  enabled := h.enabled
  frozen := h.frozen
  maint := h.maint
  accessSpace := h.accessSpace
  accessIllegal := h.accessIllegal
  mmr0 := h.mmr0
  par := h.par
  pdr := h.pdr

theorem instructionStart (h : Coherent mmu) : Coherent mmu.instructionStart := by
  unfold Kt11d.instructionStart
  split
  · exact h
  · exact h.setRestart _ _ _

theorem instructionFetched (h : Coherent mmu) (pc : Word) :
    Coherent (mmu.instructionFetched pc) := by
  unfold Kt11d.instructionFetched
  split
  · exact h
  · exact h.setRestart _ _ _

theorem logRegister (h : Coherent mmu) (reg : RegIdx) (amount : Word) :
    Coherent (mmu.logRegister reg amount) := by
  unfold Kt11d.logRegister
  split
  · exact h
  · exact h.setRestart _ _ _

/-- `kt11d_rebuild_all` derives everything anew. -/
theorem rebuildAll (hbits : BitsExist mmu) (hspace : mmu.accessSpace = mmu.accessMode.space)
    (hillegal : mmu.accessIllegal = mmu.accessMode.illegal) : Coherent mmu.rebuildAll where
  page := fun _ => rfl
  enabled := rfl
  frozen := rfl
  maint := rfl
  accessSpace := hspace
  accessIllegal := hillegal
  mmr0 := hbits.mmr0
  par := hbits.par
  pdr := hbits.pdr

theorem init (h : Coherent mmu) : Coherent mmu.init :=
  rebuildAll { mmr0 := BitVec.zero_and, par := h.par, pdr := h.pdr } h.accessSpace h.accessIllegal

end Coherent

theorem coherent_reset : Coherent reset :=
  Coherent.rebuildAll
    { mmr0 := BitVec.zero_and, par := fun _ => BitVec.zero_and,
      pdr := fun _ => BitVec.zero_and } rfl rfl

/-! ## Register writes -/

namespace Coherent

variable {mmu : Kt11d}

/-- Writing a PAR or PDR rebuilds the descriptor it changed. -/
theorem clearWritten (h : Coherent mmu) (idx : RegIdx) (par pdr : RegIdx → Word)
    (hpar : ∀ i ≠ idx, par i = mmu.par i) (hpdr : ∀ i ≠ idx, pdr i = mmu.pdr i)
    (hparBits : par idx &&& ~~~parWritable = 0) (hpdrBits : pdr idx &&& ~~~pdrWritable = 0) :
    Coherent (Kt11d.clearWritten { mmu with par := par, pdr := pdr } idx) where
  page := by
    intro i
    unfold Kt11d.clearWritten rebuild
    by_cases hi : i = idx
    · subst hi
      simp only [Function.update_self]
    · simp only [Function.update_of_ne hi]
      rw [h.page, hpar i hi, hpdr i hi]
  enabled := h.enabled
  frozen := h.frozen
  maint := h.maint
  accessSpace := h.accessSpace
  accessIllegal := h.accessIllegal
  mmr0 := h.mmr0
  par := by
    intro i
    by_cases hi : i = idx
    · subst hi
      exact hparBits
    · exact (congrArg (· &&& ~~~parWritable) (hpar i hi)).trans (h.par i)
  pdr := by
    intro i
    unfold Kt11d.clearWritten rebuild
    by_cases hi : i = idx
    · subst hi
      simp only [Function.update_self]
      rw [Word.and_not_eq_zero] at hpdrBits ⊢
      intro j hj
      rw [BitVec.getLsbD_and, hpdrBits j hj, Bool.false_and]
    · simp only [Function.update_of_ne hi]
      rw [hpdr i hi]
      exact h.pdr i

theorem written_exists (h : Coherent mmu) (reg : Reg) (w mask : Word) :
    Coherent ((mmu.set reg (mmu.written reg w mask)).refresh reg) := by
  cases reg with
  | mmr0 =>
      refine rebuildAll ⟨setmask_exists h.mmr0 fun i hi => ?_, h.par, h.pdr⟩ h.accessSpace
        h.accessIllegal
      exact and_mask_getLsbD mask (m := mmr0Writable) rfl hi
  | mmr1 => exact rebuildAll ⟨h.mmr0, h.par, h.pdr⟩ h.accessSpace h.accessIllegal
  | mmr2 => exact rebuildAll ⟨h.mmr0, h.par, h.pdr⟩ h.accessSpace h.accessIllegal
  | pdr idx =>
      refine h.clearWritten idx mmu.par _ (fun _ _ => rfl)
        (fun i hi => Function.update_of_ne hi _ _) (h.par idx) ?_
      rw [Function.update_self]
      exact setmask_exists (h.pdr idx) fun i hi =>
        and_mask_getLsbD mask (m := pdrWritable) rfl hi
  | par idx =>
      refine h.clearWritten idx _ mmu.pdr (fun i hi => Function.update_of_ne hi _ _)
        (fun _ _ => rfl) ?_ (h.pdr idx)
      rw [Function.update_self]
      exact setmask_exists (h.par idx) fun i hi =>
        and_mask_getLsbD mask (m := parWritable) rfl hi

theorem writeReg (h : Coherent mmu) {pa : UInt} {w mask : Word} {mmu' : Kt11d}
    (hwrite : mmu.writeReg pa w mask = some mmu') : Coherent mmu' := by
  unfold Kt11d.writeReg at hwrite
  obtain ⟨reg, -, rfl⟩ := Option.map_eq_some_iff.mp hwrite
  exact h.written_exists reg w mask

/-! ## Translations -/

/-- A refused reference sets an abort bit. -/
theorem causeBits_ne_zero (h : Coherent mmu) (hfrozen : mmu.frozen = false) {va : Word}
    {access : Access} (hnone : (mmu.relocate va mmu.accessSpace access).2 = none) :
    (loaded mmu.mmr0 (causeBits mmu va mmu.accessSpace access) mmu.accessMode va
      &&& mmr0Aborts != 0) = true := by
  obtain ⟨hon, -⟩ := relocate_refused hfrozen hnone
  obtain ⟨h15, h14, h13⟩ := names_loaded h.toDerived hfrozen va access
  have hno : ¬(mmu.relocate va mmu.accessSpace access).2.isSome := by simp [hnone]
  rw [relocate_isSome hon, h.modeExists_iff, h.refuses_iff] at hno
  unfold Reference.violations at h15 h14 h13
  by_cases hmode : Reference.modeExists mmu.accessMode
  · rw [if_pos hmode] at h15 h14 h13
    by_cases hseg : Reference.inSegment (mmu.pdr (pageIdx mmu.accessSpace va)) va
    · have hacf : ¬Reference.acfPermits (mmu.pdr (pageIdx mmu.accessSpace va)) access :=
        fun hp => hno ⟨hmode, hp, hseg⟩
      unfold Reference.acfPermits at hacf
      by_cases hread : acf (mmu.pdr (pageIdx mmu.accessSpace va)) = acfReadonly
      · have hwrite : access = .write := by
          cases access with
          | read => exact absurd (.inr ⟨hread, rfl⟩) hacf
          | write => rfl
        exact and_aborts_ne_zero (i := 13) rfl (by rw [h13]; simp [hread, hwrite])
      · refine and_aborts_ne_zero (i := 15) rfl ?_
        rw [h15]
        dsimp only
        revert hacf hread
        generalize acf (mmu.pdr (pageIdx mmu.accessSpace va)) = field
        revert field
        cases access <;> decide
    · exact and_aborts_ne_zero (i := 14) rfl (by rw [h14]; simp [hseg])
  · rw [if_neg hmode] at h15
    exact and_aborts_ne_zero (i := 15) rfl h15

theorem loaded_exists {mmr0 bits : Word} (hmmr0 : mmr0 &&& ~~~mmr0Exists = 0)
    (hbits : bits &&& ~~~mmr0Aborts = 0) (mode : Mode) (va : Word) :
    loaded mmr0 bits mode va &&& ~~~mmr0Exists = 0 := by
  rw [Word.and_not_eq_zero] at *
  intro i hi
  have hlt : i < 16 ∨ 16 ≤ i := by omega
  rcases hlt with hlt | hge
  · have hfields : mmr0ModePage.getLsbD i = false ∧ mmr0Aborts.getLsbD i = false := by
      clear hmmr0 hbits
      interval_cases i <;> first
        | exact ⟨rfl, rfl⟩
        | exact absurd hi (by decide)
    rw [loaded_getLsbD _ _ _ _ hlt hfields.1, hmmr0 i hi, hbits i hfields.2]
    rfl
  · exact BitVec.getLsbD_of_ge _ _ hge

theorem causeBits_aborts (mmu : Kt11d) (va : Word) (space : Space) (access : Access) :
    causeBits mmu va space access &&& ~~~mmr0Aborts = 0 := by
  unfold causeBits abortBits
  split_ifs <;> decide

/-- Setting a `W` bit does not show in the descriptors. -/
theorem relocate_page (mmu : Kt11d) (va : Word) (space : Space) (access : Access)
    (i : RegIdx) :
    descriptor (mmu.par i) ((mmu.relocate va space access).1.pdr i) i
      = descriptor (mmu.par i) (mmu.pdr i) i := by
  rcases mmu.relocate_pdr va space access with hpdr | ⟨-, hpdr⟩ <;> rw [hpdr]
  rw [Function.update_apply]
  split
  case isTrue hi => rw [hi, descriptor_setWritten]
  case isFalse => rfl

theorem relocate_pdr_exists (h : Coherent mmu) (va : Word) (space : Space) (access : Access)
    (i : RegIdx) : (mmu.relocate va space access).1.pdr i &&& ~~~pdrWritable = 0 := by
  rcases mmu.relocate_pdr va space access with hpdr | ⟨-, hpdr⟩ <;> rw [hpdr]
  · exact h.pdr i
  · rw [Function.update_apply]
    split
    · rw [Word.and_not_eq_zero]
      intro j hj
      have hw : pdrW &&& ~~~pdrWritable = 0 := rfl
      rw [BitVec.getLsbD_or, Word.and_not_eq_zero.mp (h.pdr _) j hj,
        Word.and_not_eq_zero.mp hw j hj]
      rfl
    · exact h.pdr i

/-- What a translation leaves in MMR0 exists, and the cached bits of it agree. -/
theorem relocate_flags (h : Coherent mmu) (va : Word) (access : Access) :
    let mmu' := (mmu.relocate va mmu.accessSpace access).1
    mmu.enabled = (mmu'.mmr0 &&& mmr0Enable != 0) ∧
      mmu'.frozen = (mmu'.mmr0 &&& mmr0Aborts != 0) ∧
      mmu.maint = (mmu'.mmr0 &&& mmr0Maint != 0) ∧ mmu'.mmr0 &&& ~~~mmr0Exists = 0 := by
  intro mmu'
  cases hon : mmu.relocates with
  | false =>
      have hsame : mmu' = mmu := congrArg Prod.fst (relocate_off hon va mmu.accessSpace access)
      rw [hsame]
      exact ⟨h.enabled, h.frozen, h.maint, h.mmr0⟩
  | true =>
      cases hfrozen : mmu.frozen with
      | true =>
          obtain ⟨hmmr0, hfr⟩ := relocate_frozen hfrozen va mmu.accessSpace access
          rw [hmmr0, hfr, ← hfrozen]
          exact ⟨h.enabled, h.frozen, h.maint, h.mmr0⟩
      | false =>
          obtain ⟨bits, hmmr0, hbits⟩ := relocate_mmr0 hfrozen hon va mmu.accessSpace access
          have haborts : bits &&& ~~~mmr0Aborts = 0 := by
            rcases hbits with ⟨-, -, rfl⟩ | ⟨-, -, rfl⟩
            · exact causeBits_aborts ..
            · exact BitVec.zero_and
          have hkeep : ∀ i, i < 16 → mmr0ModePage.getLsbD i = false →
              mmr0Aborts.getLsbD i = false →
              (mmu'.mmr0 &&& BitVec.twoPow 16 i != 0)
                = (mmu.mmr0 &&& BitVec.twoPow 16 i != 0) := by
            intro i hi hm ha
            rw [Word.and_twoPow_bne _ hi, Word.and_twoPow_bne _ hi, hmmr0,
              loaded_getLsbD _ _ _ _ hi hm, Word.and_not_eq_zero.mp haborts i ha, Bool.or_false]
          refine ⟨h.enabled.trans (hkeep 0 (by omega) rfl rfl).symm, ?_,
            h.maint.trans (hkeep 8 (by omega) rfl rfl).symm, ?_⟩
          · rcases hbits with ⟨hres, hfr, rfl⟩ | ⟨-, hfr, rfl⟩
            · rw [hfr, hmmr0, h.causeBits_ne_zero hfrozen hres]
            · have hclear := h.not_frozen_aborts hfrozen
              rw [hfr, hmmr0, eq_comm, bne_eq_false_iff_eq]
              apply BitVec.eq_of_getLsbD_eq
              intro i hi
              rw [BitVec.getLsbD_and]
              cases ha : mmr0Aborts.getLsbD i with
              | false => simp
              | true =>
                  have hm : mmr0ModePage.getLsbD i = false := by
                    clear hkeep
                    interval_cases i <;> first
                      | rfl
                      | exact absurd ha (by decide)
                  rw [loaded_getLsbD _ _ _ _ hi hm, Word.getLsbD_of_disjoint hclear ha]
                  simp
          · rw [hmmr0]
            exact loaded_exists h.mmr0 haborts _ _

/-- A translation keeps the KT11-D coherent, whether it is refused or not. -/
theorem relocate (h : Coherent mmu) (va : Word) (access : Access) :
    Coherent (mmu.relocate va mmu.accessSpace access).1 := by
  have hflags := h.relocate_flags va access
  have hpage := relocate_page mmu va mmu.accessSpace access
  have hpdr := h.relocate_pdr_exists va mmu.accessSpace access
  obtain ⟨mmr0, frozen, pdr, hmmu⟩ := mmu.relocate_frame va mmu.accessSpace access
  dsimp only at hflags
  rw [hmmu] at hflags hpage hpdr ⊢
  exact {
    page := fun i => (h.page i).trans (hpage i).symm
    enabled := hflags.1
    frozen := hflags.2.1
    maint := hflags.2.2.1
    accessSpace := h.accessSpace
    accessIllegal := h.accessIllegal
    mmr0 := hflags.2.2.2
    par := h.par
    pdr := hpdr }

end Coherent

/-- No translation changes `MMR0<0>` or `MMR0<8>`. -/
theorem relocate_keeps_flags (mmu : Kt11d) (va : Word) (space : Space) (access : Access) :
    (mmu.relocate va space access).1.mmr0.getLsbD 0 = mmu.mmr0.getLsbD 0 ∧
      (mmu.relocate va space access).1.mmr0.getLsbD 8 = mmu.mmr0.getLsbD 8 := by
  cases hon : mmu.relocates with
  | false => rw [relocate_off hon]; exact ⟨rfl, rfl⟩
  | true =>
      cases hfrozen : mmu.frozen with
      | true => rw [(relocate_frozen hfrozen va space access).1]; exact ⟨rfl, rfl⟩
      | false =>
          obtain ⟨bits, hmmr0, hbits⟩ := relocate_mmr0 hfrozen hon va space access
          have haborts : bits &&& ~~~mmr0Aborts = 0 := by
            rcases hbits with ⟨-, -, rfl⟩ | ⟨-, -, rfl⟩
            · exact Coherent.causeBits_aborts ..
            · exact BitVec.zero_and
          have hbit := Word.and_not_eq_zero.mp haborts
          rw [hmmr0, loaded_getLsbD _ _ _ _ (by omega) rfl, loaded_getLsbD _ _ _ _ (by omega) rfl,
            hbit 0 rfl, hbit 8 rfl, Bool.or_false, Bool.or_false]
          exact ⟨rfl, rfl⟩

end QUniBone.Kt11d
