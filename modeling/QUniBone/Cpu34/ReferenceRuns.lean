import QUniBone.Cpu34.AbortFreeze
import QUniBone.Cpu34.Operate
import QUniBone.Cpu34.References

/-!
# Every instruction keeps to its plan

A program performs a list of stages when each of its references finds the registers as the
stages in front of it leave them, and an abort of one of them takes back the autoincrement of
that stage. `performs_bind` puts programs together, and `execute_plan` says it of every
instruction.

The registers of the KT11-D which tell where to restart are followed along, as long as they
are not frozen: MMR1 holds the logged changes, MMR2 does not change.
-/

namespace QUniBone

/-- What an aborted instruction is judged by. -/
@[ext]
structure View where
  regs : RegIdx → Word
  ir : Word
  autoinc : Option (RegIdx × Word)
  mmr1 : Word
  mmr2 : Word
  count : ℕ
  frozen : Bool
  references : ℕ

def Machine.view (m : Machine) : View where
  regs := Kd11ea.general m.cpu
  ir := m.cpu.ir
  autoinc := m.cpu.autoinc
  mmr1 := m.cpu.mmu.mmr1
  mmr2 := m.cpu.mmu.mmr2
  count := m.cpu.mmu.mmr1Count
  frozen := m.cpu.mmu.frozen
  references := m.references

/-- After a reference. -/
def View.succeeded (v : View) : View :=
  { v with autoinc := none, references := v.references + 1 }

/-- After a reference which failed. It may have frozen the registers of the KT11-D. -/
def View.failed (v : View) (frozen : Bool) : View :=
  { v with regs := backOut v.autoinc v.regs, autoinc := none, frozen := frozen }

/-- After a change of a register which goes to MMR1. -/
def View.logged (v : View) (r : RegIdx) (amount : Word) : View :=
  if v.frozen ∨ r = 7 ∨ 2 ≤ v.count then v
  else { v with
    mmr1 := if v.count = 0 then Kt11d.mmr1Entry r amount
      else v.mmr1 ||| (Kt11d.mmr1Entry r amount <<< 8)
    count := v.count + 1 }

section

variable (v : View) (r : RegIdx) (amount : Word)

@[simp] theorem View.logged_regs : (v.logged r amount).regs = v.regs := by
  unfold View.logged
  split <;> rfl

@[simp] theorem View.logged_ir : (v.logged r amount).ir = v.ir := by
  unfold View.logged
  split <;> rfl

@[simp] theorem View.logged_autoinc : (v.logged r amount).autoinc = v.autoinc := by
  unfold View.logged
  split <;> rfl

@[simp] theorem View.logged_references : (v.logged r amount).references = v.references := by
  unfold View.logged
  split <;> rfl

end

/-- MMR1 to MMR2 at the beginning of an instruction. -/
structure View.Fresh (v : View) : Prop where
  frozen : v.frozen = false
  mmr1 : v.mmr1 = 0
  count : v.count = 0

/-- The registers after these changes, the last reference not yet made. -/
structure Restarts (v₀ : View) (cs : List (RegIdx × Word)) (v : View) : Prop where
  frozen : v.frozen = false
  mmr1 : v.mmr1 = Reference.mmr1 cs
  count : v.count = (loggable cs).length
  mmr2 : v.mmr2 = v₀.mmr2

/-- The machine on its way to the reference of stage `s`, those of `done` being made. -/
structure At (ir : Word) (v₀ : View) (done : List Stage) (s : Stage) (v : View) : Prop where
  regs : v.regs = applyMoves v₀.regs (movesOf done ++ s.moves)
  ir : v.ir = ir
  autoinc : v.autoinc = s.own
  general : ∀ r amount, s.own = some (r, amount) → r.val < 8
  references : v.references = v₀.references + done.length
  restart : v₀.Fresh → Restarts v₀ (loggedOf (movesOf done ++ s.moves)) v

/-- The machine after an abort of reference `k` of the plan. -/
structure Aborted (v₀ : View) (plan : List Stage) (k : ℕ) (v : View) : Prop where
  aborts : Aborts plan k v₀.regs v.regs
  references : v.references = v₀.references + k
  autoinc : v.autoinc = none
  restart : v₀.Fresh → v.mmr1 = Reference.mmr1 (loggedOf (movesOf (plan.take (k + 1)))) ∧
    v.mmr2 = v₀.mmr2

/-! ## Stages -/

@[simp] theorem movesOf_append (p q : List Stage) : movesOf (p ++ q) = movesOf p ++ movesOf q :=
  List.flatMap_append

@[simp] theorem movesOf_singleton (s : Stage) : movesOf [s] = s.moves := by
  simp [movesOf]

@[simp] theorem loggedOf_append (p q : List Move) : loggedOf (p ++ q) = loggedOf p ++ loggedOf q :=
  List.flatMap_append

theorem applyMoves_append (regs : RegIdx → Word) (p q : List Move) :
    applyMoves regs (p ++ q) = applyMoves (applyMoves regs p) q :=
  List.foldl_append

theorem applyMoves_concat (regs : RegIdx → Word) (p : List Move) (mv : Move) :
    applyMoves regs (p ++ [mv]) = mv.apply (applyMoves regs p) :=
  applyMoves_append regs p [mv]

@[simp] theorem loggedOf_singleton (mv : Move) : loggedOf [mv] = mv.logged := by
  simp [loggedOf]

@[simp] theorem backOut_some (r : RegIdx) (amount : Word) (regs : RegIdx → Word) :
    backOut (some (r, amount)) regs = Function.update regs r (regs r - amount) := rfl

@[simp] theorem backOut_none (regs : RegIdx → Word) : backOut none regs = regs := rfl

/-- A plan which goes on longer says the same of its first references. -/
theorem Aborts.append {p : List Stage} {k : ℕ} {regs regs' : RegIdx → Word}
    (h : Aborts p k regs regs') (q : List Stage) : Aborts (p ++ q) k regs regs' := by
  obtain ⟨s, hs, hregs⟩ := h
  have hk : k < p.length := (List.getElem?_eq_some_iff.mp hs).1
  refine ⟨s, by rw [List.getElem?_append_left hk, hs], ?_⟩
  rw [List.take_append_of_le_length (by omega), hregs]

theorem Aborts.lt_length {p : List Stage} {k : ℕ} {regs regs' : RegIdx → Word}
    (h : Aborts p k regs regs') : k < p.length := by
  obtain ⟨s, hs, -⟩ := h
  exact (List.getElem?_eq_some_iff.mp hs).1

theorem Aborted.append {v₀ v : View} {p : List Stage} {k : ℕ} (h : Aborted v₀ p k v)
    (q : List Stage) : Aborted v₀ (p ++ q) k v where
  aborts := h.aborts.append q
  references := h.references
  autoinc := h.autoinc
  restart := by
    have hk := h.aborts.lt_length
    rw [List.take_append_of_le_length (by omega)]
    exact h.restart

/-! ## Views -/

namespace Kd11ea

theorem general_of_lt (cpu : Kd11ea) {i : RegIdx} (hi : i.val < 8) : general cpu i = cpu.r i :=
  if_pos hi

theorem general_update (cpu : Kd11ea) {i : RegIdx} (hi : i.val < 8) (w : Word) :
    general (cpu.setR i w) = Function.update (general cpu) i w := by
  funext j
  unfold general setR
  by_cases hj : j = i
  · subst hj
    simp [hi]
  · simp [Function.update_of_ne hj]

theorem general_scratch (cpu : Kd11ea) {i : RegIdx} (hi : 8 ≤ i.val) (w : Word) :
    general (cpu.setR i w) = general cpu := by
  funext j
  unfold general setR
  by_cases hj : j = i
  · subst hj
    rw [if_neg (by omega), if_neg (by omega)]
  · simp [Function.update_of_ne hj]

/-- An autoincrement of a general register is pending, if any is. -/
def PendsGeneral (cpu : Kd11ea) : Prop :=
  ∀ r amount, cpu.autoinc = some (r, amount) → r.val < 8

theorem general_autoincUndo (cpu : Kd11ea) (hsmall : PendsGeneral cpu) :
    general cpu.autoincUndo = backOut cpu.autoinc (general cpu) := by
  unfold autoincUndo
  split
  case h_1 r amount hown =>
    have hr := hsmall r amount hown
    rw [hown, backOut_some, general_of_lt cpu hr]
    exact general_update cpu hr _
  case h_2 hown => rw [hown, backOut_none]

theorem autoincUndo_autoinc (cpu : Kd11ea) : cpu.autoincUndo.autoinc = none := by
  unfold autoincUndo
  split
  case h_1 => rfl
  case h_2 hown => exact hown

theorem relocate_frozen_granted (mmu : Kt11d) (va : Word) (access : Access) {pa : UInt}
    (hres : (mmu.relocate va mmu.accessSpace access).2 = some pa) :
    (mmu.relocate va mmu.accessSpace access).1.frozen = mmu.frozen := by
  cases hfrozen : mmu.frozen with
  | true => exact (Kt11d.relocate_frozen hfrozen va _ access).2
  | false =>
      cases hon : mmu.relocates with
      | false => rw [Kt11d.relocate_off hon, hfrozen]
      | true =>
          obtain ⟨_, -, hcase⟩ := Kt11d.relocate_mmr0 hfrozen hon va mmu.accessSpace access
          rcases hcase with ⟨hnone, -, -⟩ | ⟨-, hf, -⟩
          · rw [hres] at hnone
            cases hnone
          · exact hf

/-! ## One reference -/

theorem translated_view (m : Machine) (access : Access) : ∃ frozen,
    (m.translated access).view = { m.view with frozen := frozen } ∧
      ∀ pa, m.physical access = some pa → frozen = m.cpu.mmu.frozen := by
  have hhist : (m.translated access).references = m.references := by
    unfold Machine.references
    rw [translated_bus]
    unfold Machine.translated
    dsimp only
    split
    · exact congrArg _ (List.countP_cons_of_neg Bool.false_ne_true)
    · rfl
  obtain ⟨mmr0, frozen, pdr, hmmu⟩ :=
    m.cpu.mmu.relocate_frame m.cpu.ba m.cpu.mmu.accessSpace access
  refine ⟨frozen, ?_, fun pa hpa => ?_⟩
  · unfold Machine.view
    rw [hhist, translated_cpu, hmmu]
    rfl
  · have hgranted := relocate_frozen_granted m.cpu.mmu m.cpu.ba access hpa
    rwa [hmmu] at hgranted

theorem cycleFailed_view (m : Machine) (vector : Word) (hsmall : PendsGeneral m.cpu) :
    (m.cycleFailed vector).view = m.view.failed m.view.frozen := by
  have hmmu := cycleFailed_status m vector
  have hir : (m.cycleFailed vector).cpu.ir = m.cpu.ir := by
    unfold Machine.cycleFailed Machine.mapCpu autoincUndo
    dsimp only
    split <;> rfl
  exact View.ext (general_autoincUndo _ hsmall) hir (autoincUndo_autoinc _)
    (congrArg (·.mmr1) hmmu) (congrArg (·.mmr2) hmmu) (congrArg (·.mmr1Count) hmmu)
    (congrArg (·.frozen) hmmu) rfl

theorem pendsGeneral_congr {cpu cpu' : Kd11ea} (h : PendsGeneral cpu)
    (heq : cpu'.autoinc = cpu.autoinc) : PendsGeneral cpu' :=
  fun r amount hr => h r amount (heq ▸ hr)

/-- The ways a reference ends, as they are seen. -/
def Ends (v : View) : EStateM.Result Unit Machine Unit → Prop
  | .ok _ m => m.view = v.succeeded
  | .error _ m => ∃ frozen, m.view = v.failed frozen

theorem failed_of_translated {m t : Machine} {access : Access} (hsmall : PendsGeneral m.cpu)
    (hview : t.view = (m.translated access).view) (vector : Word) :
    ∃ frozen, (t.cycleFailed vector).view = m.view.failed frozen := by
  obtain ⟨frozen, htrans, -⟩ := translated_view m access
  have hsame : t.view = { m.view with frozen := frozen } := hview.trans htrans
  have hpend : PendsGeneral t.cpu := pendsGeneral_congr hsmall (congrArg (·.autoinc) hsame)
  refine ⟨frozen, (cycleFailed_view t vector hpend).trans ?_⟩
  rw [hsame]
  rfl

theorem references_onBus (m : Machine) {e : BusEvent} (he : e.succeeded = true) :
    (m.onBus e).references = m.references + 1 := by
  have hcount := List.countP_cons_of_pos (l := m.bus) he
  unfold Machine.references Machine.onBus
  dsimp only
  omega

theorem references_internalRef (m : Machine) (pa : UInt) :
    (m.note (.internalRef pa)).references = m.references + 1 := by
  have hcount := List.countP_cons_of_pos (p := CpuEvent.isInternalRef)
    (a := .internalRef pa) (l := m.hist) rfl
  unfold Machine.references Machine.note
  dsimp only
  omega

/-- A reference which was answered: the registers it set are not looked at. -/
theorem succeeded_view {t u : Machine} (hcpu : { t.view with references := 0 }
      = { u.view with references := 0 }) (hrefs : u.references = t.references + 1) :
    u.cycleOk.view = t.view.succeeded :=
  View.ext (congrArg (·.regs) hcpu.symm) (congrArg (·.ir) hcpu.symm) rfl
    (congrArg (·.mmr1) hcpu.symm) (congrArg (·.mmr2) hcpu.symm) (congrArg (·.count) hcpu.symm)
    (congrArg (·.frozen) hcpu.symm) hrefs

theorem dati_ends (bus : Bus) (byte : Bool) {m : Machine} (hsmall : PendsGeneral m.cpu) :
    Ends m.view (dati bus byte m) := by
  obtain ⟨frozen, htrans, hgranted⟩ := translated_view m .read
  have hspec := dati_spec bus byte m
  generalize dati bus byte m = result at hspec ⊢
  cases hspec with
  | odd => exact ⟨_, cycleFailed_view m 4 hsmall⟩
  | aborted => exact failed_of_translated hsmall rfl _
  | @internal pa w hpa hint =>
      have hsame : (m.translated .read).view = m.view := by rw [htrans, hgranted pa hpa]; rfl
      rw [← hsame]
      exact succeeded_view rfl (references_internalRef _ pa)
  | @answered pa d hpa =>
      have hsame : (m.translated .read).view = m.view := by rw [htrans, hgranted pa hpa]; rfl
      rw [← hsame]
      exact succeeded_view rfl (references_onBus (m.translated .read) rfl)
  | timeout => exact failed_of_translated hsmall rfl 4

/-- `dato()`: what it wrote is not looked at. -/
theorem dato_failed (bus : Bus) (byte : Bool) {m m' : Machine} (hsmall : PendsGeneral m.cpu)
    (h : dato bus byte m = .error () m') : ∃ frozen, m'.view = m.view.failed frozen := by
  have hspec := dato_spec bus byte m
  rw [h] at hspec
  cases hspec with
  | odd => exact ⟨_, cycleFailed_view m 4 hsmall⟩
  | aborted => exact failed_of_translated hsmall rfl _
  | @timeout pa =>
      have hsame : ((m.translated .write).onBus (writeEvent byte pa m.cpu.bdata false)).view
          = (m.translated .write).view := by
        cases byte <;> rfl
      exact failed_of_translated hsmall hsame 4

end Kd11ea

/-! ## Stages -/

namespace At

variable {ir : Word} {v₀ v : View} {done : List Stage} {s : Stage}

theorem start (hir : v₀.ir = ir) (hnone : v₀.autoinc = none) : At ir v₀ [] .idle v₀ where
  regs := rfl
  ir := hir
  autoinc := hnone
  general := nofun
  references := rfl
  restart := fun h => ⟨h.frozen, h.mmr1, h.count, rfl⟩

theorem succeeded (h : At ir v₀ done s v) : At ir v₀ (done ++ [s]) .idle v.succeeded where
  regs := by
    rw [movesOf_append, movesOf_singleton]
    exact h.regs.trans (congrArg _ (List.append_nil _).symm)
  ir := h.ir
  autoinc := rfl
  general := nofun
  references := by
    rw [List.length_append, ← Nat.add_assoc]
    exact congrArg (· + 1) h.references
  restart := by
    intro hfresh
    have hr := h.restart hfresh
    rw [movesOf_append, movesOf_singleton]
    simp only [Stage.idle, List.append_nil]
    exact ⟨hr.frozen, hr.mmr1, hr.count, hr.mmr2⟩

theorem failed (h : At ir v₀ done s v) (frozen : Bool) :
    Aborted v₀ (done ++ [s]) done.length (v.failed frozen) := by
  have htake : (done ++ [s]).take (done.length + 1) = done ++ [s] :=
    List.take_of_length_le (by simp)
  refine ⟨⟨s, by simp, ?_⟩, h.references, rfl, fun hfresh => ?_⟩ <;>
    rw [htake, movesOf_append, movesOf_singleton]
  · rw [← h.regs, ← h.autoinc]
    rfl
  · have hr := h.restart hfresh
    exact ⟨hr.mmr1, hr.mmr2⟩

/-- Only registers nobody looks at changed. -/
theorem congr {v' : View} (h : At ir v₀ done s v) (heq : v' = v) : At ir v₀ done s v' := by
  rwa [heq]

/-- A register change which is not logged. -/
theorem move (h : At ir v₀ done s v) {mv : Move} (hlogged : mv.logged = []) :
    At ir v₀ done (s.move mv) { v with regs := mv.apply v.regs } where
  regs := by
    show mv.apply v.regs = _
    rw [h.regs, Stage.move, ← List.append_assoc, applyMoves_concat]
  ir := h.ir
  autoinc := h.autoinc
  general := h.general
  references := h.references
  restart := by
    intro hfresh
    have hr := h.restart hfresh
    rw [Stage.move, ← List.append_assoc, loggedOf_append, loggedOf_singleton, hlogged,
      List.append_nil]
    exact ⟨hr.frozen, hr.mmr1, hr.count, hr.mmr2⟩

/-- A register change which is logged. -/
theorem logged (h : At ir v₀ done s v) (r : RegIdx) (amount : Word) :
    At ir v₀ done (s.move (.add r amount true))
      ({ v with regs := (Move.add r amount true).apply v.regs }.logged r amount) where
  regs := by
    rw [View.logged_regs, h.regs, Stage.move, ← List.append_assoc, applyMoves_concat]
  ir := (View.logged_ir _ _ _).trans h.ir
  autoinc := (View.logged_autoinc _ _ _).trans h.autoinc
  general := h.general
  references := (View.logged_references _ _ _).trans h.references
  restart := by
    intro hfresh
    have hr := h.restart hfresh
    have hcount : v.count = (loggable (loggedOf (movesOf done ++ s.moves))).length := hr.count
    rw [Stage.move, ← List.append_assoc, loggedOf_append, loggedOf_singleton]
    show Restarts v₀ (loggedOf (movesOf done ++ s.moves) ++ [(r, amount)]) _
    unfold View.logged
    dsimp only
    rw [hr.frozen, hcount]
    by_cases hfull : r = 7 ∨ 2 ≤ (loggable (loggedOf (movesOf done ++ s.moves))).length
    · rw [if_pos (.inr hfull)]
      refine ⟨rfl, ?_, ?_, hr.mmr2⟩
      · rw [Reference.mmr1_append, if_pos hfull]
        exact hr.mmr1
      · rw [loggable_append, if_pos hfull]
    · rw [if_neg (by simpa using hfull)]
      refine ⟨rfl, ?_, ?_, hr.mmr2⟩
      · rw [Reference.mmr1_append, if_neg hfull, hr.mmr1]
      · rw [loggable_append, if_neg hfull, List.length_append]
        rfl

/-- The autoincrement which forms the address. -/
theorem pending (h : At ir v₀ done s v) {r : RegIdx} (hr : r.val < 8) (amount : Word) :
    At ir v₀ done { s with own := some (r, amount) } { v with autoinc := some (r, amount) } where
  regs := h.regs
  ir := h.ir
  autoinc := rfl
  general := by
    rintro _ _ ⟨⟩
    exact hr
  references := h.references
  restart := fun hfresh =>
    have hr := h.restart hfresh
    ⟨hr.frozen, hr.mmr1, hr.count, hr.mmr2⟩

end At

/-! ## Programs -/

namespace Kd11ea

open Prog

variable {α β : Type} {bus : Bus} {ir : Word} {s s' s'' : Stage} {p q : List Stage}

/-- Starting on the way to the reference of stage `s`, the program makes the references of `p`
and is then on the way to the one of stage `s'`. -/
def Performs (ir : Word) (s : Stage) (p : List Stage) (s' : Stage) (x : M α) : Prop :=
  ∀ v₀ done, Triple (fun m => At ir v₀ done s m.view) x
    (fun _ m => At ir v₀ (done ++ p) s' m.view) fun m => ∃ k, Aborted v₀ (done ++ p) k m.view

/-- Starting on the way to the reference of stage `s`, the program makes those of `p`. -/
def Follows (ir : Word) (s : Stage) (p : List Stage) (x : M α) : Prop :=
  ∀ v₀ done, Triple (fun m => At ir v₀ done s m.view) x
    (fun _ _ => True) fun m => ∃ k, Aborted v₀ (done ++ p) k m.view

theorem Performs.bind {x : M α} {f : α → M β} (hx : Performs ir s p s' x)
    (hf : ∀ a, Performs ir s' q s'' (f a)) : Performs ir s (p ++ q) s'' (x >>= f) := by
  intro v₀ done
  rw [← List.append_assoc]
  refine Triple.bind ((hx v₀ done).conseq (fun _ h => h) (fun _ _ h => h) ?_)
    fun a => hf a v₀ (done ++ p)
  exact fun _ ⟨k, hk⟩ => ⟨k, hk.append q⟩

theorem Performs.follows {x : M α} {f : α → M β} (hx : Performs ir s p s' x)
    (hf : ∀ a, Follows ir s' q (f a)) : Follows ir s (p ++ q) (x >>= f) := by
  intro v₀ done
  rw [← List.append_assoc]
  refine Triple.bind ((hx v₀ done).conseq (fun _ h => h) (fun _ _ h => h) ?_)
    fun a => hf a v₀ (done ++ p)
  exact fun _ ⟨k, hk⟩ => ⟨k, hk.append q⟩

/-- What follows the last reference. -/
theorem Performs.tail {x : M α} {f : α → M β} (hx : Performs ir s p s' x)
    (hf : ∀ a, Performs ir s' [] s'' (f a)) : Performs ir s p s'' (x >>= f) := by
  have h := hx.bind hf
  rwa [List.append_nil] at h

/-- What leads to the first one. -/
theorem Performs.lead {x : M α} {f : α → M β} (hx : Performs ir s [] s' x)
    (hf : ∀ a, Performs ir s' p s'' (f a)) : Performs ir s p s'' (x >>= f) :=
  hx.bind hf

/-- A program which makes no reference. -/
theorem Performs.of_view {x : M α} (h : ∀ m, ∃ a m', x m = .ok a m' ∧ m'.view = m.view) :
    Performs ir s [] s x := by
  intro v₀ done m hm
  obtain ⟨a, m', hx, hview⟩ := h m
  rw [hx, List.append_nil]
  exact hm.congr hview

theorem performs_update {f : Kd11ea → Kd11ea}
    (h : ∀ m : Machine, (m.mapCpu f).view = m.view) : Performs ir s [] s (update f) :=
  Performs.of_view fun m => ⟨(), m.mapCpu f, rfl, h m⟩

theorem performs_look (f : Kd11ea → α) : Performs ir s [] s (look f) :=
  Performs.of_view fun m => ⟨f m.cpu, m, rfl, rfl⟩

theorem performs_pure (a : α) : Performs ir s [] s (pure a : M α) :=
  Performs.of_view fun m => ⟨a, m, rfl, rfl⟩

theorem performs_when {c : Prop} [Decidable c] {x : M Unit} (hx : Performs ir s [] s x) :
    Performs ir s [] s (when c x) := by
  unfold when
  split
  · exact hx
  · exact performs_pure ()

/-- The reference itself. -/
theorem performs_dati (byte : Bool) : Performs ir s [s] .idle (dati bus byte) := by
  intro v₀ done m hm
  have hpend : PendsGeneral m.cpu := fun r amount hr => hm.general r amount (hm.autoinc ▸ hr)
  have hends := dati_ends bus byte hpend
  generalize dati bus byte m = result at hends ⊢
  cases result with
  | ok _ m' => exact hm.succeeded.congr hends
  | error _ m' =>
      obtain ⟨frozen, hview⟩ := hends
      exact ⟨done.length, hview ▸ hm.failed frozen⟩

theorem follows_dato (byte : Bool) : Follows ir s [s] (dato bus byte) := by
  intro v₀ done m hm
  have hpend : PendsGeneral m.cpu := fun r amount hr => hm.general r amount (hm.autoinc ▸ hr)
  cases hresult : dato bus byte m with
  | ok _ m' => trivial
  | error _ m' =>
      obtain ⟨frozen, hview⟩ := dato_failed bus byte hpend hresult
      exact ⟨done.length, hview ▸ hm.failed frozen⟩

/-- A register change which is not logged. -/
theorem performs_move {f : Kd11ea → Kd11ea} {mv : Move} (hlogged : mv.logged = [])
    (h : ∀ m : Machine, (m.mapCpu f).view = { m.view with regs := mv.apply m.view.regs }) :
    Performs ir s [] (s.move mv) (update f) := by
  intro v₀ done m hm
  rw [List.append_nil]
  exact (hm.move hlogged).congr (h m)

/-! ## Operands -/

theorem reg_lt (m : Word) : m.reg.val < 8 := by
  show (m &&& 7).toNat < 8
  rw [BitVec.toNat_and]
  exact Nat.lt_succ_of_le Nat.and_le_right

theorem mapCpu_setR_view (m : Machine) {r : RegIdx} (hr : r.val < 8) (w : Word) :
    (m.mapCpu (·.setR r w)).view = { m.view with regs := Function.update m.view.regs r w } :=
  View.ext (general_update m.cpu hr w) rfl rfl rfl rfl rfl rfl rfl

theorem add_view (m : Machine) {r : RegIdx} (hr : r.val < 8) (amount : Word) (logged : Bool) :
    (m.mapCpu fun cpu => cpu.setR r (cpu.r r + amount)).view
      = { m.view with regs := (Move.add r amount logged).apply m.view.regs } := by
  show _ = { m.view with regs := Function.update m.view.regs r (general m.cpu r + amount) }
  rw [general_of_lt m.cpu hr]
  exact mapCpu_setR_view m hr _

theorem performs_scratch {t : RegIdx} (ht : 8 ≤ t.val) (w : Kd11ea → Word) :
    Performs ir s [] s (update fun cpu => cpu.setR t (w cpu)) :=
  performs_update fun m => View.ext (general_scratch m.cpu ht _) rfl rfl rfl rfl rfl rfl rfl

theorem performs_add {r : RegIdx} (hr : r.val < 8) (amount : Word) :
    Performs ir s [] (s.move (.add r amount false))
      (update fun cpu => cpu.setR r (cpu.r r + amount)) :=
  performs_move rfl fun m => add_view m hr amount false

theorem performs_copy {r src : RegIdx} (hr : r.val < 8) (hsrc : src.val < 8) (offset : Word) :
    Performs ir s [] (s.move (.copy r src offset))
      (update fun cpu => cpu.setR r (cpu.r src + offset)) :=
  performs_move rfl fun m => by
    show _ = { m.view with regs := Function.update m.view.regs r (general m.cpu src + offset) }
    rw [general_of_lt m.cpu hsrc]
    exact mapCpu_setR_view m hr _

/-- Taking over a register as it is. -/
theorem performs_take {r src : RegIdx} (hr : r.val < 8) (hsrc : src.val < 8) :
    Performs ir s [] (s.move (.copy r src 0)) (update fun cpu => cpu.setR r (cpu.r src)) := by
  have hsame : (fun cpu : Kd11ea => cpu.setR r (cpu.r src))
      = fun cpu => cpu.setR r (cpu.r src + 0) := by
    funext cpu
    exact congrArg _ (BitVec.add_zero _).symm
  rw [hsame]
  exact performs_copy hr hsrc 0

theorem performs_load {r : RegIdx} (hr : r.val < 8) (w : Word) :
    Performs ir s [] (s.move (.load r w)) (update fun cpu => cpu.setR r w) :=
  performs_move rfl fun m => mapCpu_setR_view m hr w

theorem performs_stackLimit (f : Kd11ea → Word) :
    Performs ir s [] s (update fun cpu => stackLimit cpu (f cpu)) := by
  refine performs_update fun m => ?_
  unfold stackLimit Machine.mapCpu
  dsimp only
  split <;> rfl

theorem logRegister_view (m : Machine) (r : RegIdx) (amount : Word) :
    ((m.mapCpu fun cpu => { cpu with mmu := cpu.mmu.logRegister r amount }).note
      (.regChange r amount)).view = m.view.logged r amount := by
  have hrefs : ((m.mapCpu fun cpu => { cpu with mmu := cpu.mmu.logRegister r amount }).note
      (.regChange r amount)).references = m.references := by
    unfold Machine.references
    exact congrArg _ (List.countP_cons_of_neg Bool.false_ne_true)
  unfold Machine.view
  rw [hrefs]
  unfold View.logged Kt11d.logRegister
  dsimp only [Machine.mapCpu, Machine.note]
  split <;> rfl

theorem performs_pending {r : RegIdx} (hr : r.val < 8) (amount : Word) :
    Performs ir s [] { s with own := some (r, amount) } (update (·.autoincPending r amount)) := by
  intro v₀ done m hm
  rw [List.append_nil]
  exact hm.pending hr amount

theorem performs_addrInc {r : RegIdx} (hr : r.val < 8) (ai : Word) :
    Performs ir .idle [] ⟨[.add r ai true], some (r, ai)⟩ (addrInc r ai) := by
  intro v₀ done m hm
  -- in front of `kt11d_log_register`
  let m' := ((m.mapCpu fun cpu => { cpu with ba := cpu.r r }).mapCpu fun cpu =>
    { cpu.setR r (cpu.r r + ai) with b := cpu.r r + ai }).mapCpu (·.autoincPending r ai)
  have hview : m'.view = { m.view with
      regs := (Move.add r ai true).apply m.view.regs
      autoinc := some (r, ai) } :=
    View.ext (congrArg (·.regs) (add_view m hr ai true)) rfl rfl rfl rfl rfl rfl rfl
  rw [List.append_nil]
  refine ((hm.pending hr ai).logged r ai).congr ?_
  exact (logRegister_view m' r ai).trans (congrArg (·.logged r ai) hview)

theorem performs_addrDec {r : RegIdx} (hr : r.val < 8) (ai : Word) :
    Performs ir .idle [] ⟨[.add r (-ai) true], none⟩ (addrDec r ai) := by
  intro v₀ done m hm
  -- the stack limit is a matter of the kernel stack only
  let limited : Kd11ea → Kd11ea := fun cpu => if r = 6 then stackLimit cpu cpu.ba else cpu
  have hlimited : ∀ cpu, ∃ traps, limited cpu = { cpu with traps := traps } := by
    intro cpu
    unfold limited stackLimit
    split_ifs <;> exact ⟨_, rfl⟩
  let m₁ := m.mapCpu fun cpu => { cpu with b := cpu.r r - ai, ba := cpu.r r - ai }
  let m' := (m₁.mapCpu limited).mapCpu fun cpu => cpu.setR r cpu.ba
  have heq : addrDec r ai m = logRegister r (-ai) m' := by
    by_cases h6 : r = 6
    · simp only [addrDec, when, m', m₁, limited, if_pos h6]
      rfl
    · simp only [addrDec, when, m', m₁, limited, if_neg h6]
      rfl
  have hview : m'.view = { m.view with regs := (Move.add r (-ai) true).apply m.view.regs } := by
    obtain ⟨traps, htraps⟩ := hlimited m₁.cpu
    have hadd := add_view m hr (-ai) true
    simp only [← BitVec.sub_eq_add_neg] at hadd
    rw [← hadd]
    unfold m' Machine.mapCpu
    rw [htraps]
    rfl
  rw [heq, List.append_nil]
  refine (hm.logged r (-ai)).congr ?_
  exact (logRegister_view m' r (-ai)).trans (congrArg (·.logged r (-ai)) hview)

theorem performs_addrIndex (r : RegIdx) :
    Performs ir .idle [⟨[.add 7 2 false], none⟩] .idle (addrIndex bus r) :=
  (performs_update fun _ => rfl).lead fun _ => (performs_add (by decide) 2).lead fun _ =>
    (performs_dati false).tail fun _ => performs_update fun _ => rfl

theorem performs_addrDeferred : Performs ir s [s] .idle (addrDeferred bus) :=
  (performs_dati false).tail fun _ => performs_update fun _ => rfl

theorem performs_addrForm (m : Word) (byte : Bool) :
    Performs ir .idle (forming m byte).1 (forming m byte).2 (addrForm bus m byte) := by
  have hdeferred : ∀ formed : List Stage × Stage,
      Performs ir .idle formed.1 formed.2 (addrSwitch bus m byte) →
      Performs ir .idle (if m.addrMode.getLsbD 0 then (formed.1 ++ [formed.2], .idle) else formed).1
        (if m.addrMode.getLsbD 0 then (formed.1 ++ [formed.2], Stage.idle) else formed).2
        (addrSwitch bus m byte >>= fun _ => when (m.addrMode.getLsbD 0) (addrDeferred bus)) := by
    intro formed h
    by_cases hbit : m.addrMode.getLsbD 0 = true
    · simp only [hbit, when, if_true]
      exact h.bind fun _ => performs_addrDeferred
    · simp only [hbit, when, Bool.false_eq_true, if_false]
      exact h.tail fun _ => performs_pure ()
  unfold addrForm forming
  dsimp only
  by_cases h0 : m.addrMode &&& 6 = 0
  · rw [if_pos h0, if_pos h0]
    exact performs_update fun _ => rfl
  · rw [if_neg h0, if_neg h0]
    refine hdeferred _ ?_
    unfold addrSwitch
    split_ifs
    · exact performs_addrInc (reg_lt m) _
    · exact performs_addrDec (reg_lt m) _
    · exact performs_addrIndex m.reg

/-- `addrop()` finds nothing pending. -/
theorem performs_commit : Performs ir .idle [] .idle (update autoincCommit) := by
  intro v₀ done m hm
  rw [List.append_nil]
  exact hm.congr (View.ext rfl rfl hm.autoinc.symm rfl rfl rfl rfl rfl)

theorem performs_addrop (m : Word) (byte : Bool) :
    Performs ir .idle (forming m byte).1 (forming m byte).2 (addrop bus m byte) :=
  performs_commit.lead fun _ => (performs_look _).lead fun _ =>
    Performs.lead (performs_update fun _ => rfl) fun _ =>
    (performs_addrForm m byte).tail fun _ => performs_update fun _ => rfl

theorem performs_addrdest (m : Word) (byte : Bool) :
    Performs ir .idle (forming m byte).1 (forming m byte).2 (addrdest bus m byte) :=
  Performs.lead (performs_update fun _ => rfl) fun _ => performs_addrop m byte

theorem performs_fetchop {t : RegIdx} (ht : 8 ≤ t.val) (m : Word) (byte : Bool) :
    Performs ir s (if m.addrMode = 0 then [] else [s]) (if m.addrMode = 0 then s else .idle)
      (fetchop bus t m byte) := by
  have hword : Performs ir s (if m.addrMode = 0 then [] else [s])
      (if m.addrMode = 0 then s else .idle) (fetchWord bus t m byte) := by
    unfold fetchWord
    split_ifs
    · exact performs_scratch ht _
    · exact (performs_dati byte).tail fun _ => performs_scratch ht _
  exact hword.tail fun _ => performs_when (performs_scratch ht _)

/-- One operand of `RD_B` and `RD_U`. -/
theorem performs_operand {t : RegIdx} (ht : 8 ≤ t.val) (m : Word) (byte : Bool) :
    Performs ir .idle (reading m byte) .idle (operand bus t m byte) := by
  have hfetch : ∀ s : Stage, Performs ir s (if m.addrMode = 0 then [] else [s])
      (if m.addrMode = 0 then s else .idle) (fetchop bus t m byte) :=
    fun _ => performs_fetchop ht m byte
  replace hfetch := hfetch (if m.addrMode = 0 then .idle else (forming m byte).2)
  unfold operand reading reference
  split_ifs at hfetch ⊢
  · exact hfetch
  · exact Performs.lead (performs_update fun _ => rfl) fun _ =>
      (performs_addrop m byte).bind fun _ => hfetch

/-! ## Shared steps -/

/-- A program which cannot fail. -/
def Total (x : M α) : Prop := ∀ m, ∃ a m', x m = .ok a m'

theorem Total.follows {x : M α} (h : Total x) : Follows ir s p x := by
  intro v₀ done m _
  obtain ⟨a, m', hx⟩ := h m
  rw [hx]
  trivial

theorem total_update (f : Kd11ea → Kd11ea) : Total (update f) := fun m => ⟨(), m.mapCpu f, rfl⟩

theorem total_pure (a : α) : Total (pure a : M α) := fun m => ⟨a, m, rfl⟩

theorem total_bind {x : M α} {f : α → M β} (hx : Total x) (hf : ∀ a, Total (f a)) :
    Total (x >>= f) := by
  intro m
  obtain ⟨a, m', hok⟩ := hx m
  rw [bind_ok f hok]
  exact hf a m'

/-- What follows the last reference may do anything but fail. -/
theorem Follows.tail {x : M α} {f : α → M β} (hx : Follows ir s p x) (hf : ∀ a, Total (f a)) :
    Follows ir s p (x >>= f) := by
  intro v₀ done
  refine Triple.bind (hx v₀ done) fun a m _ => ?_
  obtain ⟨b, m', hok⟩ := hf a m
  rw [hok]
  trivial

theorem Performs.leadTo {x : M α} {f : α → M β} (hx : Performs ir s [] s' x)
    (hf : ∀ a, Follows ir s' p (f a)) : Follows ir s p (x >>= f) :=
  hx.follows hf

theorem Performs.tail_follows {x : M α} {f : α → M β} (hx : Performs ir s p s' x)
    (hf : ∀ a, Total (f a)) : Follows ir s p (x >>= f) := by
  have h := hx.follows (q := []) fun a => (hf a).follows
  rwa [List.append_nil] at h

theorem performs_setCC (f : Kd11ea → CC) : Performs ir s [] s (setCC f) :=
  performs_update fun _ => rfl

theorem performs_alu (op : Word → Word → CC → Alu.Result) : Performs ir s [] s (alu op) :=
  (performs_look _).lead fun _ => (performs_setCC _).lead fun _ => performs_pure _

theorem performs_push (inhov : Bool) : Performs ir s [] s.push (push inhov) := by
  have hsub : Performs ir s [] s.push (update fun cpu => cpu.setR 6 (cpu.r 6 - 2)) := by
    simp only [BitVec.sub_eq_add_neg]
    exact performs_add (by decide) (-2)
  exact hsub.lead fun _ => Performs.lead (performs_update fun _ => rfl) fun _ =>
    performs_when (performs_stackLimit _)

theorem performs_pop : Performs ir s [] s.pop pop :=
  (performs_add (by decide) 2).lead fun _ => performs_pending (by decide) 2

theorem performs_popWord : Performs ir s [s.pop] .idle (popWord bus) :=
  Performs.lead (performs_update fun _ => rfl) fun _ => performs_pop.lead fun _ =>
    (performs_dati false).tail fun _ => performs_look _

theorem follows_outSp (d : Kd11ea → Word) : Follows ir s [s] (outSp bus d) :=
  Performs.leadTo (performs_update fun _ => rfl) fun _ => follows_dato false

/-- The space a reference is made in is not looked at. -/
theorem performs_inPrevSpace {x : M Unit} (hx : Performs ir s p s' x) :
    Performs ir s p s' (inPrevSpace x) := by
  refine Performs.lead (performs_update fun _ => rfl) fun _ => ?_
  intro v₀ done m hm
  have h := hx v₀ done m hm
  unfold finallyDo
  cases hres : x m <;> rw [hres] at h <;> exact h

theorem follows_inPrevSpace {x : M Unit} (hx : Follows ir s p x) :
    Follows ir s p (inPrevSpace x) := by
  refine Performs.leadTo (performs_update fun _ => rfl) fun _ => ?_
  intro v₀ done m hm
  have h := hx v₀ done m hm
  unfold finallyDo
  cases hres : x m <;> rw [hres] at h <;> exact h

theorem follows_writedest (v : Word) (byte : Bool) :
    Follows ir s (if ir.addrMode = 0 then [] else [s]) (writedest bus v byte) := by
  have hwrite : Follows ir s (if ir.addrMode = 0 then [] else [s])
      (if ir.addrMode = 0 then writeRegister ir.reg v byte else writeMemory bus v byte) := by
    split_ifs
    · exact (total_update _).follows
    · exact Performs.leadTo (performs_update fun _ => rfl) fun _ => follows_dato byte
  refine Performs.leadTo (performs_update fun _ => rfl) fun _ => ?_
  intro v₀ done m hm
  have hir : m.cpu.ir = ir := hm.ir
  subst hir
  exact hwrite v₀ done m hm

/-- Storing a result where the operand was, or would have been, read. -/
theorem follows_storeWhole (v : Word) (byte : Bool) :
    Follows ir s (if ir.addrMode = 0 then [] else [s]) (storeWhole bus byte (dstOf ir) v) := by
  have hwrite : Follows ir s (if ir.addrMode = 0 then [] else [s]) (writedest bus v byte) :=
    follows_writedest v byte
  unfold storeWhole
  rw [addrMode_dstOf]
  split_ifs at hwrite ⊢
  · exact (total_update _).follows
  · exact hwrite

theorem performs_rdB (byte : Bool) : Performs ir .idle
    (reading (srcOf ir) byte ++ reading (dstOf ir) byte) .idle (rdB bus byte ir) :=
  (performs_operand (by decide) _ byte).bind fun _ => performs_operand (by decide) _ byte

theorem performs_rdU (byte : Bool) :
    Performs ir .idle (reading (dstOf ir) byte) .idle (rdU bus byte ir) :=
  (performs_operand (by decide) _ byte).tail fun _ => performs_scratch (by decide) _

end Kd11ea

end QUniBone
