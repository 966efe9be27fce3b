import QUniBone.Cpu20.Step

/-!
# The KA11: the priority told to the arbitrator

* `Coherent`: the priority last told is that of the PSW, if it was loaded.
* `Kept`: what the programs of `step()` do to it, and how many references they make.
* `instruction_leaves`, `trapSequence_leaves`: the parts of a step.
-/

namespace QUniBone

/-- The priority last told to the arbitrator -/
def BusLog.told (log : BusLog) : Option Word :=
  log.findSome? fun
    | .prioritylevelchange level => some level
    | _ => none

namespace Ka11

open Prog

/-- PSW<7:5> -/
def level (cpu : Ka11) : Word := cpu.pswWord >>> 5

def Machine.Coherent (m : Machine) : Prop := m.loaded = true → m.log.told = some m.cpu.level

/-- With `n` references at most -/
structure Kept (n : ℕ) (s t : Machine) : Prop where
  coherent : s.Coherent → t.Coherent
  references : t.log.references ≤ s.log.references + n

theorem graded_kept : Graded Kept where
  refl _ := ⟨id, le_refl _⟩
  trans hst htu :=
    ⟨htu.coherent ∘ hst.coherent, by have := hst.references; have := htu.references; omega⟩
  mono hle h := ⟨h.coherent, h.references.trans (by omega)⟩

/-- A reference has failed. -/
def Failed (m : Machine) : Prop := 1 ≤ m.cpu.be

/-- The programs of `step()` -/
abbrev Runs {α : Type} (n : ℕ) (x : M α) : Prop := Leaves Kept Failed n x

/-! ## Single updates -/

theorem Kept.mapCpu (s : Machine) {f : Ka11 → Ka11} (h : (f s.cpu).level = s.cpu.level) :
    Kept 0 s (s.mapCpu f) where
  coherent hs hloaded := by
    show s.log.told = some (f s.cpu).level
    rw [h]
    exact hs hloaded
  references := le_refl _

/-- The PSW does not change. -/
theorem Kept.quiet (s : Machine) {f : Ka11 → Ka11} (h : ∀ cpu, (f cpu).psw = cpu.psw) :
    Kept 0 s (s.mapCpu f) :=
  Kept.mapCpu s (by rw [level, level, pswWord, pswWord, h])

theorem update_runs {f : Ka11 → Ka11} (h : ∀ cpu, (f cpu).psw = cpu.psw) : Runs 0 (update f) :=
  Leaves.modify fun s => Kept.quiet s h

theorem look_runs {α : Type} (f : Ka11 → α) : Runs 0 (look f) :=
  ⟨fun s => graded_kept.refl s, fun _ _ _ h => by cases h⟩

theorem pure_runs {α : Type} (a : α) : Runs 0 (pure a : M α) := Leaves.pure graded_kept a

theorem level_store (cpu : Ka11) (cc : CC) :
    (({ cpu with psw := (cc.store cpu.pswWord).setWidth 8 } : Ka11)).level = cpu.level := by
  apply BitVec.eq_of_getLsbD_eq
  intro i hi
  have hstore := cc.store_getLsbD cpu.pswWord (show 4 ≤ 5 + i by omega)
  show (((cc.store cpu.pswWord).setWidth 8).setWidth 16 >>> 5).getLsbD i = _
  show _ = (cpu.pswWord >>> 5).getLsbD i
  rw [BitVec.getLsbD_ushiftRight, BitVec.getLsbD_setWidth, BitVec.getLsbD_setWidth, hstore,
    BitVec.getLsbD_ushiftRight, pswWord, BitVec.getLsbD_setWidth]
  by_cases h8 : 5 + i < 8
  · simp [h8, show 5 + i < 16 by omega, -BitVec.getLsbD_eq_getElem]
  · simp [h8, -BitVec.getLsbD_eq_getElem, BitVec.getLsbD_of_ge cpu.psw (5 + i) (by omega)]

theorem setCC_runs (f : Ka11 → CC) : Runs 0 (setCC f) :=
  Leaves.modify fun s => Kept.mapCpu s (level_store s.cpu (f s.cpu))

/-- A call into the bus adapter that is not about priorities -/
theorem Kept.onBus (s : Machine) {e : BusEvent} (h : ∀ level, e ≠ .prioritylevelchange level) :
    Kept (if e.isReference then 1 else 0) s (s.onBus e) where
  coherent hs hloaded := by
    have htold : BusLog.told (e :: s.log) = s.log.told := by
      cases e with
      | prioritylevelchange level => exact absurd rfl (h level)
      | dati => rfl
      | dato => rfl
      | datob => rfl
      | grantInterrupts => rfl
      | busInit => rfl
    exact htold.trans (hs hloaded)
  references := by
    show BusLog.references (e :: s.log) ≤ _
    rw [BusLog.references, List.countP_cons]
    exact le_refl _

/-- Whatever was told before. -/
theorem levelchange_coherent (s : Machine) : s.levelchange.Coherent := fun _ => rfl

theorem Kept.loadPsw (s : Machine) (w : Word) : Kept 0 s (s.loadPsw w).levelchange where
  coherent _ := levelchange_coherent _
  references := le_refl _

/-! ## Bus cycles -/

theorem Kept.cycleOk (s : Machine) : Kept 0 s s.cycleOk :=
  Kept.quiet s fun _ => rfl

theorem Kept.cycleFailed (s : Machine) : Kept 0 s s.cycleFailed :=
  Kept.quiet s fun _ => rfl

theorem cycleFailed_failed (s : Machine) : Failed s.cycleFailed := Nat.le_add_left 1 _

/-- A word that was read -/
theorem Kept.inside (s : Machine) {f : Ka11 → Ka11} (h : ∀ cpu, (f cpu).psw = cpu.psw) :
    Kept 0 s (s.mapCpu f).cycleOk :=
  graded_kept.trans (Kept.quiet s h) (Kept.cycleOk _)

variable (bus : Bus)

theorem Kept.reference (s : Machine) {e : BusEvent} (href : e.isReference = true) :
    Kept 1 s (s.onBus e) := by
  have hbus := Kept.onBus s (e := e) fun level h => by rw [h] at href; cases href
  rwa [href] at hbus

/-- A reference, and what the processor makes of the answer -/
theorem Kept.answered (s : Machine) {e : BusEvent} {t : Machine} (href : e.isReference = true)
    (h : Kept 0 (s.onBus e) t) : Kept 1 s t :=
  graded_kept.trans (Kept.reference s href) h

theorem busDati_runs : Runs 1 (busDati bus) := by
  constructor
  · intro s
    unfold busDati
    dsimp only
    split
    · exact Kept.answered s (by rfl) (Kept.inside _ fun _ => rfl)
    · exact Kept.answered s (by rfl) (Kept.cycleFailed _)
  · intro s e t h
    unfold busDati at h
    dsimp only at h
    split at h
    · cases h
    · cases h
      exact cycleFailed_failed _

theorem Kept.refused (s : Machine) : Kept 1 s s.cycleFailed :=
  graded_kept.mono (Nat.zero_le 1) (Kept.cycleFailed s)

theorem dati_runs (byte : Bool) : Runs 1 (dati bus byte) := by
  constructor
  · intro s
    unfold dati
    split
    · exact Kept.refused s
    · split
      · exact graded_kept.mono (Nat.zero_le 1) (Kept.inside s fun _ => rfl)
      · exact graded_kept.mono (Nat.zero_le 1) (Kept.inside s fun _ => rfl)
      · exact Kept.refused s
      · exact graded_kept.mono (Nat.zero_le 1) (Kept.inside s fun _ => rfl)
      · exact (busDati_runs bus).within s
  · intro s e t h
    unfold dati at h
    split at h
    · cases h
      exact cycleFailed_failed s
    · split at h
      · cases h
      · cases h
      · cases h
        exact cycleFailed_failed s
      · cases h
      · exact (busDati_runs bus).exits s e t h

theorem busDato_runs (byte : Bool) : Runs 1 (busDato bus byte) := by
  constructor
  · intro s
    unfold busDato
    dsimp only
    split
    · split
      · exact Kept.answered s (by rfl) (Kept.cycleOk _)
      · exact Kept.answered s (by rfl) (Kept.cycleFailed _)
    · split
      · exact Kept.answered s (by rfl) (Kept.cycleOk _)
      · exact Kept.answered s (by rfl) (Kept.cycleFailed _)
  · intro s e t h
    unfold busDato at h
    dsimp only at h
    split at h <;> split at h <;> cases h <;> exact cycleFailed_failed _

theorem dato_runs (byte : Bool) : Runs 1 (dato bus byte) := by
  constructor
  · intro s
    unfold dato
    split
    · exact Kept.refused s
    · split
      · exact graded_kept.mono (Nat.zero_le 1) (Kept.cycleOk s)
      · exact graded_kept.mono (Nat.zero_le 1)
          (graded_kept.trans (Kept.loadPsw s _) (Kept.cycleOk _))
      · exact Kept.refused s
      · exact (busDato_runs bus byte).within s
      · exact (busDato_runs bus byte).within s
  · intro s e t h
    unfold dato at h
    split at h
    · cases h
      exact cycleFailed_failed s
    · split at h
      · cases h
      · cases h
      · cases h
        exact cycleFailed_failed s
      · exact (busDato_runs bus byte).exits s e t h
      · exact (busDato_runs bus byte).exits s e t h

end Ka11

end QUniBone
