import QUniBone.Cpu20.Programs
import QUniBone.Lib.Transition

/-!
# The KA11: priority and trap sequences over whole runs

* `Fixed`, `pushes`: a bus where a fixed set of addresses responds.
* `Round.Sound`, `TrapSound`: trap sequences of bus errors that do not fail half-way.
* `Ends`: a step ends, with a double bus error where it should.
* `TellsPriority`: power-ups that load the priority the arbitrator knows.
* `told_and_ended`: both together.
-/

namespace QUniBone

/-- A fixed set of addresses responds, with any data. -/
structure Bus.Fixed (bus : Bus) (responds : UInt → Bool) : Prop where
  dati : ∀ log a, (bus.dati log a).isSome = responds a
  dato : ∀ log a d, bus.dato log a d = responds a
  datob : ∀ log a d, bus.datob log a d = responds (a &&& ~~~1)

namespace Ka11

open Prog

/-- Does a word go there? -/
def pushes (responds : UInt → Bool) (a : Word) : Bool :=
  !a.odd && match internal a with
    | .switches | .psw => true
    | .nonexistent => false
    | .zero | .none => responds (ubxt a &&& ~~~1)

/-- If the first push of a bus error's trap sequence is answered, the rest of it is. -/
def Round.Sound (responds : UInt → Bool) (s : Round) : Prop :=
  s.busError = true → pushes responds (s.machine.cpu.r 6 - 2) = true →
    pushes responds (s.machine.cpu.r 6 - 2 - 2) = true ∧ responds 4 = true ∧ responds 6 = true

/-- A round of `step()` -/
def Comes (bus : Bus) (m : Machine) (s : Round) : Prop :=
  ∃ s₀, stepStart bus m = .inr s₀ ∧ Loop.Reaches (trapRound bus) s₀ s

def TrapSound (bus : Bus) (responds : UInt → Bool) (m : Machine) : Prop :=
  ∀ s, Comes bus m s → s.Sound responds

/-- `step()` called in `m` -/
structure Ends (bus : Bus) (m : Machine) : Prop where
  returns : ∃ m', Step bus m m' ∧ m'.log.references ≤ m.log.references + 16
  /-- A failure of a bus error's trap sequence is a double bus error. -/
  halts : ∀ s t, Comes bus m s → s.busError = true →
    trapSequence bus s.inhov s.machine = .error () t →
    ∃ m', trapRound bus s = .inl m' ∧ m'.cpu.state = .halted

/-! ## Cycles of words -/

section

variable {bus : Bus} {responds : UInt → Bool} (hfixed : bus.Fixed responds) {m : Machine}

include hfixed

theorem busDato_word :
    busDato bus false m = if responds (ubxt m.cpu.ba &&& ~~~1) = true then
      .ok () (m.onBus (.dato (ubxt m.cpu.ba &&& ~~~1) m.cpu.bdata true)).cycleOk
    else .error () (m.onBus (.dato (ubxt m.cpu.ba &&& ~~~1) m.cpu.bdata false)).cycleFailed := by
  unfold busDato
  dsimp only
  rw [if_neg Bool.false_ne_true, hfixed.dato]
  cases responds (ubxt m.cpu.ba &&& ~~~1) <;> rfl

theorem dato_pushes (h : pushes responds m.cpu.ba = true) :
    ∃ t, dato bus false m = .ok () t ∧ t.cpu.r = m.cpu.r ∧ t.cpu.be = 0 := by
  rw [pushes, Bool.and_eq_true, Bool.not_eq_true'] at h
  obtain ⟨hodd, hinside⟩ := h
  unfold dato
  rw [if_neg (by simp [hodd])]
  split <;> rename_i hinternal <;> rw [hinternal] at hinside
  · exact ⟨_, rfl, rfl, rfl⟩
  · exact ⟨_, rfl, rfl, rfl⟩
  · cases hinside
  all_goals
    rw [busDato_word hfixed, if_pos hinside]
    exact ⟨_, rfl, rfl, rfl⟩

theorem dato_refused (h : pushes responds m.cpu.ba = false) :
    ∃ t, dato bus false m = .error () t ∧ t.cpu.be = m.cpu.be + 1 := by
  unfold dato
  by_cases hodd : m.cpu.ba.odd = true
  · rw [if_pos ⟨rfl, hodd⟩]
    exact ⟨_, rfl, rfl⟩
  · rw [pushes, Bool.eq_false_iff.mpr hodd, Bool.not_false, Bool.true_and] at h
    rw [if_neg (by simp [hodd])]
    split <;> rename_i hinternal <;> rw [hinternal] at h
    · cases h
    · cases h
    · exact ⟨_, rfl, rfl⟩
    all_goals
      rw [busDato_word hfixed, if_neg (Bool.eq_false_iff.mp h)]
      exact ⟨_, rfl, rfl⟩

omit hfixed in
/-- A read outside the processor that is answered -/
theorem dati_some {p : UInt} {d : Word} (hodd : m.cpu.ba.odd = false)
    (hbus : internal m.cpu.ba = .none) (hp : ubxt m.cpu.ba &&& ~~~1 = p)
    (h : bus.dati m.log p = some d) :
    dati bus false m =
      .ok () ((m.onBus (.dati p (some d))).mapCpu ({ · with bdata := d })).cycleOk := by
  unfold dati
  rw [if_neg (by simp [hodd]), hbus]
  unfold busDati
  dsimp only
  rw [hp, h]

omit hfixed in
theorem dati_none {p : UInt} (hodd : m.cpu.ba.odd = false) (hbus : internal m.cpu.ba = .none)
    (hp : ubxt m.cpu.ba &&& ~~~1 = p) (h : bus.dati m.log p = none) :
    dati bus false m = .error () (m.onBus (.dati p none)).cycleFailed := by
  unfold dati
  rw [if_neg (by simp [hodd]), hbus]
  unfold busDati
  dsimp only
  rw [hp, h]

theorem dati_answer {p : UInt} (hodd : m.cpu.ba.odd = false) (hbus : internal m.cpu.ba = .none)
    (hp : ubxt m.cpu.ba &&& ~~~1 = p) :
    (∃ t, dati bus false m = .ok () t ∧ t.cpu.r = m.cpu.r ∧ t.cpu.be = 0 ∧
        responds p = true) ∨
      ∃ t, dati bus false m = .error () t ∧ t.cpu.be = m.cpu.be + 1 ∧ responds p = false := by
  have hanswer := hfixed.dati m.log p
  cases hd : bus.dati m.log p with
  | some d =>
    rw [hd] at hanswer
    exact .inl ⟨_, dati_some hodd hbus hp hd, rfl, rfl, hanswer.symm⟩
  | none =>
    rw [hd] at hanswer
    exact .inr ⟨_, dati_none hodd hbus hp hd, rfl, hanswer.symm⟩

/-! ## The trap sequence -/

omit hfixed in
/-- A push, up to its bus cycle -/
theorem pushWord_eq (bus : Bus) (m : Machine) (inhov : Bool) (d : Ka11 → Word) :
    ∃ u : Machine, pushWord bus inhov d m = dato bus false u ∧ u.cpu.ba = m.cpu.r 6 - 2 ∧
      u.cpu.r = Function.update m.cpu.r 6 (m.cpu.r 6 - 2) ∧ u.cpu.be = m.cpu.be := by
  let v : Machine := m.mapCpu (·.setR 6 (m.cpu.r 6 - 2))
  have hsp : v.cpu.r 6 = m.cpu.r 6 - 2 := by
    show Function.update m.cpu.r 6 (m.cpu.r 6 - 2) 6 = _
    rw [Function.update_self]
  cases inhov with
  | true =>
    exact ⟨v.mapCpu fun cpu => { cpu with ba := cpu.r 6, bdata := d cpu }, rfl, hsp, rfl, rfl⟩
  | false =>
    refine ⟨(v.mapCpu fun cpu => stackLimit cpu (cpu.r 6)).mapCpu
      fun cpu => { cpu with ba := cpu.r 6, bdata := d cpu }, rfl, ?_, ?_, ?_⟩
    all_goals
      unfold Machine.mapCpu stackLimit
      dsimp only
      split <;> first | exact hsp | rfl

theorem pushWord_pushes (inhov : Bool) (d : Ka11 → Word)
    (h : pushes responds (m.cpu.r 6 - 2) = true) :
    ∃ t, pushWord bus inhov d m = .ok () t ∧ t.cpu.be = 0 ∧
      t.cpu.r = Function.update m.cpu.r 6 (m.cpu.r 6 - 2) := by
  obtain ⟨u, heq, hba, hr, -⟩ := pushWord_eq bus m inhov d
  rw [← hba] at h
  obtain ⟨t, hdato, htr, hbe⟩ := dato_pushes hfixed h
  exact ⟨t, heq.trans hdato, hbe, htr.trans hr⟩

theorem pushWord_refused (inhov : Bool) (d : Ka11 → Word)
    (h : pushes responds (m.cpu.r 6 - 2) = false) :
    ∃ t, pushWord bus inhov d m = .error () t ∧ t.cpu.be = m.cpu.be + 1 := by
  obtain ⟨u, heq, hba, -, hbe⟩ := pushWord_eq bus m inhov d
  rw [← hba] at h
  obtain ⟨t, hdato, htbe⟩ := dato_refused hfixed h
  exact ⟨t, heq.trans hdato, htbe.trans (by rw [hbe])⟩

/-- The vector of bus errors, after a push -/
theorem trapVector_cases (hvector : m.cpu.r 10 = 4) (hbe : m.cpu.be = 0) :
    (responds 4 = true ∧ responds 6 = true) ∧ (∃ t, trapVector bus m = .ok () t) ∨
      ¬ (responds 4 = true ∧ responds 6 = true) ∧
        ∃ t, trapVector bus m = .error () t ∧ t.cpu.be = 1 := by
  let u : Machine := m.mapCpu fun cpu => { cpu with ba := cpu.r 10 }
  have hba : u.cpu.ba = 4 := hvector
  have hfirst := dati_answer hfixed (m := u) (p := 4) (by rw [hba]; decide)
    (by rw [hba]; decide) (by rw [hba]; decide)
  have hprogram : trapVector bus m = (do
      dati bus false
      update fun cpu => cpu.setR 7 cpu.bdata
      update fun cpu => { cpu with ba := cpu.r 10 + 2 }
      dati bus false
      modify fun m => m.loadPsw m.cpu.bdata
      modify (·.levelchange) : M Unit) u := rfl
  rcases hfirst with ⟨t, ht, htr, htbe, hresponds⟩ | ⟨t, ht, htbe, hsilent⟩
  · let v : Machine :=
      (t.mapCpu fun cpu => cpu.setR 7 cpu.bdata).mapCpu fun cpu => { cpu with ba := cpu.r 10 + 2 }
    have hvba : v.cpu.ba = 6 := by
      show Function.update t.cpu.r 7 t.cpu.bdata 10 + 2 = 6
      rw [Function.update_of_ne (by decide), htr]
      show m.cpu.r 10 + 2 = 6
      rw [hvector]
      rfl
    have hsecond := dati_answer hfixed (m := v) (p := 6) (by rw [hvba]; decide)
      (by rw [hvba]; decide) (by rw [hvba]; decide)
    rw [hprogram, bind_ok _ ht]
    rcases hsecond with ⟨w, hw, -, -, hresponds'⟩ | ⟨w, hw, hwbe, hsilent⟩
    · exact .inl ⟨⟨hresponds, hresponds'⟩, _, bind_ok _ hw⟩
    · have hrest : (do
          dati bus false
          modify fun m => m.loadPsw m.cpu.bdata
          modify (·.levelchange) : M Unit) v = .error () w := bind_error _ hw
      refine .inr ⟨fun h => absurd (h.2.symm.trans hsilent) (by decide), w, hrest, ?_⟩
      rw [hwbe]
      show t.cpu.be + 1 = 1
      rw [htbe]
  · refine .inr ⟨fun h => absurd (h.1.symm.trans hsilent) (by decide), t, ?_, ?_⟩
    · rw [hprogram]
      exact bind_error _ ht
    · rw [htbe]
      show m.cpu.be + 1 = 1
      rw [hbe]

/-- A round for a bus error: only a first push that fails stops it. -/
theorem trapSequence_cases {s : Round} (hvector : s.machine.cpu.r 10 = 4)
    (hbe : 1 ≤ s.machine.cpu.be) (hs : s.busError = true) :
    (s.Sound responds ∧ ∃ t, trapSequence bus s.inhov s.machine = .ok () t) ∨
      (s.Sound responds ∧ ∃ t, trapSequence bus s.inhov s.machine = .error () t ∧
        1 < t.cpu.be) ∨
      ¬ s.Sound responds ∧ ∃ t, trapSequence bus s.inhov s.machine = .error () t ∧
        t.cpu.be = 1 := by
  cases hfirst : pushes responds (s.machine.cpu.r 6 - 2) with
  | false =>
    obtain ⟨t, ht, htbe⟩ := pushWord_refused hfixed s.inhov (·.pswWord) hfirst
    refine .inr (.inl ⟨fun _ h => absurd (hfirst.symm.trans h) (by decide), t, ?_, by omega⟩)
    exact bind_error _ (bind_error _ ht)
  | true =>
    obtain ⟨u, hu, hube, hur⟩ := pushWord_pushes hfixed s.inhov (·.pswWord) hfirst
    have hsp : u.cpu.r 6 = s.machine.cpu.r 6 - 2 := by rw [hur, Function.update_self]
    have htv : u.cpu.r 10 = 4 := by rw [hur, Function.update_of_ne (by decide), hvector]
    cases hsecond : pushes responds (u.cpu.r 6 - 2) with
    | false =>
      obtain ⟨t, ht, htbe⟩ := pushWord_refused hfixed s.inhov (·.r 7) hsecond
      refine .inr (.inr ⟨fun h => ?_, t, bind_error _ ((bind_ok _ hu).trans ht), by omega⟩)
      rw [hsp] at hsecond
      exact absurd (hsecond.symm.trans (h hs hfirst).1) (by decide)
    | true =>
      obtain ⟨v, hv, hvbe, hvr⟩ := pushWord_pushes hfixed s.inhov (·.r 7) hsecond
      have hvtv : v.cpu.r 10 = 4 := by rw [hvr, Function.update_of_ne (by decide), htv]
      have hpushed : trapPushes bus s.inhov s.machine = .ok () v := (bind_ok _ hu).trans hv
      rcases trapVector_cases hfixed hvtv hvbe with ⟨hresponds, t, ht⟩ | ⟨hsilent, t, ht, htbe⟩
      · refine .inl ⟨fun _ _ => ⟨?_, hresponds⟩, t, (bind_ok _ hpushed).trans ht⟩
        rw [← hsp]
        exact hsecond
      · exact .inr (.inr ⟨fun h => hsilent (h hs hfirst).2, t, (bind_ok _ hpushed).trans ht,
          htbe⟩)

end

/-! ## Steps -/

variable {bus : Bus} {m : Machine}

/-- A trap for a bus error has come through `be:`. -/
def Round.FromError (s : Round) : Prop :=
  s.busError = true → s.machine.cpu.r 10 = 4 ∧ 1 ≤ s.machine.cpu.be

/-- A jump, with `n` references before it -/
structure Jumped (n : ℕ) (m : Machine) (j : Jump) : Prop where
  kept : Kept n m j.machine
  fromError : ∀ s, j = .inr s → s.FromError

theorem Kept.setR (m : Machine) (i : RegIdx) (w : Word) : Kept 0 m (m.mapCpu (·.setR i w)) :=
  Kept.quiet m fun _ => by rfl

theorem trapTo_jumped (m : Machine) (inhov : Bool) (v : Word) :
    Jumped 0 m (trapTo m inhov false v) where
  kept := Kept.setR m 10 v
  fromError s hs h := by
    cases hs
    cases h

theorem busError_jumped {n : ℕ} {m t : Machine} (hkept : Kept n m t) (h : Failed t)
    (inhov : Bool) : Jumped n m (busError t inhov) := by
  unfold busError
  split
  case isTrue =>
    have hhalt : Kept 0 t (t.mapCpu ({ · with state := .halted })) := Kept.quiet t fun _ => by rfl
    exact ⟨graded_kept.trans hkept hhalt, fun s hs => by cases hs⟩
  case isFalse =>
    refine ⟨graded_kept.trans hkept (Kept.setR t 10 4), fun s hs _ => ?_⟩
    cases hs
    have hvector : Function.update t.cpu.r 10 4 10 = 4 := by rw [Function.update_self]
    exact ⟨hvector, h⟩

theorem Jumped.after {n : ℕ} {m t : Machine} {j : Jump} (hkept : Kept n m t)
    (h : Jumped 0 t j) : Jumped n m j :=
  ⟨graded_kept.trans hkept h.kept, h.fromError⟩

theorem service_jumped (m : Machine) (t : Bool) : Jumped 0 m (service m t) := by
  unfold service
  split
  · exact trapTo_jumped m _ _
  · split
    · exact (trapTo_jumped _ _ _).after (Kept.quiet m fun _ => by rfl)
    · split
      · exact (trapTo_jumped _ _ _).after (Kept.quiet m fun _ => by rfl)
      · exact ⟨graded_kept.refl m, fun s hs => by cases hs⟩

theorem stepStart_jumped (bus : Bus) (m : Machine) : Jumped 8 m (stepStart bus m) := by
  have hruns := instruction_runs bus
  have hwithin := hruns.within m
  unfold stepStart
  split
  case isTrue =>
    refine Jumped.after ?_ (trapTo_jumped _ _ _)
    exact graded_kept.mono (Nat.zero_le 8) (Kept.quiet m fun _ => by rfl)
  case isFalse =>
    cases hi : instruction bus m with
    | error e t =>
      rw [hi] at hwithin
      exact busError_jumped hwithin (hruns.exits m e t hi) false
    | ok next t =>
      rw [hi] at hwithin
      cases next with
      | service => exact (service_jumped t _).after hwithin
      | trap v => exact (trapTo_jumped t false v).after hwithin
      | ret => exact ⟨hwithin, fun s hs => by cases hs⟩

theorem trapRound_jumped (bus : Bus) (s : Round) : Jumped 4 s.machine (trapRound bus s) := by
  have hruns := trapSequence_runs bus s.inhov
  have hwithin := hruns.within s.machine
  unfold trapRound
  cases ht : trapSequence bus s.inhov s.machine with
  | ok _ t =>
    rw [ht] at hwithin
    exact ⟨hwithin, fun s hs => by cases hs⟩
  | error e t =>
    rw [ht] at hwithin
    exact busError_jumped hwithin (hruns.exits s.machine e t ht) s.inhov

theorem Comes.fromError {s : Round} (h : Comes bus m s) : s.FromError := by
  obtain ⟨s₀, hstart, hreaches⟩ := h
  refine hreaches.invariant (I := Round.FromError) (fun u v _ hround => ?_)
    ((stepStart_jumped bus m).fromError s₀ hstart)
  exact (trapRound_jumped bus u).fromError v hround

theorem Comes.next {s t : Round} (h : Comes bus m s) (hround : trapRound bus s = .inr t) :
    Comes bus m t := by
  obtain ⟨s₀, hstart, hreaches⟩ := h
  exact ⟨s₀, hstart, hreaches.tail hround⟩

/-- The round after one that fails is for a bus error. -/
theorem busError_of_round {s t : Round} (h : trapRound bus s = .inr t) : t.busError = true := by
  unfold trapRound at h
  split at h
  · cases h
  · unfold busError at h
    split at h
    · cases h
    · cases h
      rfl

/-- The priority told stays that of the PSW in a step that returns. -/
theorem Step.coherent {m' : Machine} (h : Step bus m m') (hm : m.Coherent) : m'.Coherent := by
  obtain ⟨n, hn⟩ := h
  have hstart := (stepStart_jumped bus m).kept.coherent hm
  cases hj : stepStart bus m with
  | inl t =>
    rw [hj] at hn hstart
    obtain rfl := Option.some.inj hn
    exact hstart
  | inr s =>
    rw [hj] at hn hstart
    refine Loop.Returns.of_invariant (I := fun s : Round => s.machine.Coherent)
      (Q := Machine.Coherent) (fun u v hu hround => ?_) (fun u r hu hround => ?_) ⟨n, hn⟩ hstart
    · have hkept := (trapRound_jumped bus u).kept.coherent hu
      rwa [hround] at hkept
    · have hkept := (trapRound_jumped bus u).kept.coherent hu
      rwa [hround] at hkept

/-- A round that does not fail half-way ends the step. -/
theorem trapRound_sound {responds : UInt → Bool} (hfixed : bus.Fixed responds) {s : Round}
    (hcomes : Comes bus m s) (hs : s.busError = true) (hsound : s.Sound responds) :
    ∃ t, trapRound bus s = .inl t ∧
      ∀ u, trapSequence bus s.inhov s.machine = .error () u → t.cpu.state = .halted := by
  obtain ⟨hvector, hbe⟩ := hcomes.fromError hs
  unfold trapRound
  rcases trapSequence_cases hfixed hvector hbe hs with
    ⟨-, t, ht⟩ | ⟨-, t, ht, htbe⟩ | ⟨hnot, -⟩
  · rw [ht]
    exact ⟨t, rfl, fun u hu => by cases hu⟩
  · rw [ht]
    exact ⟨_, if_pos htbe, fun _ _ => rfl⟩
  · exact absurd hsound hnot

theorem step_returns {responds : UInt → Bool} (hfixed : bus.Fixed responds)
    (hsound : TrapSound bus responds m) :
    ∃ m', Step bus m m' ∧ m'.log.references ≤ m.log.references + 16 := by
  have hstart := (stepStart_jumped bus m).kept.references
  cases hj : stepStart bus m with
  | inl t =>
    rw [hj] at hstart
    exact ⟨t, ⟨0, by rw [hj]; rfl⟩, hstart.trans (by omega)⟩
  | inr s =>
    rw [hj] at hstart
    have hcomes : Comes bus m s := ⟨s, hj, .refl⟩
    have hfirst := (trapRound_jumped bus s).kept.references
    cases hround : trapRound bus s with
    | inl t =>
      rw [hround] at hfirst
      exact ⟨t, ⟨1, by rw [hj]; exact Loop.run_of_inl hround 0⟩, by
        have h1 : s.machine.log.references ≤ m.log.references + 8 := hstart
        have h2 : t.log.references ≤ s.machine.log.references + 4 := hfirst
        omega⟩
    | inr u =>
      -- the second trap is for a bus error
      rw [hround] at hfirst
      have hnext := hcomes.next hround
      have hbusError := busError_of_round hround
      obtain ⟨t, ht, -⟩ := trapRound_sound hfixed hnext hbusError (hsound u hnext)
      have hsecond := (trapRound_jumped bus u).kept.references
      rw [ht] at hsecond
      exact ⟨t, ⟨2, by rw [hj]; exact (Loop.run_of_inr hround 1).trans (Loop.run_of_inl ht 0)⟩, by
        have h1 : s.machine.log.references ≤ m.log.references + 8 := hstart
        have h2 : u.machine.log.references ≤ s.machine.log.references + 4 := hfirst
        have h3 : t.log.references ≤ u.machine.log.references + 4 := hsecond
        omega⟩

/-- Exactly the steps without a trap sequence that fails half-way end. -/
theorem ends_iff {responds : UInt → Bool} (hfixed : bus.Fixed responds) (m : Machine) :
    Ends bus m ↔ TrapSound bus responds m := by
  constructor
  · intro h s hcomes hs
    obtain ⟨hvector, hbe⟩ := hcomes.fromError hs
    rcases trapSequence_cases hfixed hvector hbe hs with ⟨hsound, -⟩ | ⟨hsound, -⟩ | ⟨-, t, ht, htbe⟩
    · exact hsound hs
    · exact hsound hs
    · -- the counter is 1 again, so another trap follows
      obtain ⟨m', hround, -⟩ := h.halts s t hcomes hs ht
      have hjump : trapRound bus s = busError t s.inhov := by
        unfold trapRound
        rw [ht]
      have hgo : busError t s.inhov = trapTo t s.inhov true 4 := if_neg (by omega)
      rw [hjump, hgo] at hround
      cases hround
  · intro h
    refine ⟨step_returns hfixed h, fun s t hcomes hs ht => ?_⟩
    obtain ⟨m', hround, hhalted⟩ := trapRound_sound hfixed hcomes hs (h s hcomes)
    exact ⟨m', hround, hhalted t ht⟩

/-! ## Runs -/

/-- The words of the power-up vector, if both are answered -/
def powerUpVector (bus : Bus) (m : Machine) : Option (Word × Word) :=
  (bus.dati m.log 0o24).bind fun pc =>
    (bus.dati (.dati 0o24 (some pc) :: m.log) 0o26).map fun psw => (pc, psw)

/-- A power-up loads a PSW with the priority last told, or none. -/
def TellsPriority (bus : Bus) (m : Machine) : Action → Prop
  | .pwrup => ∀ pc psw, powerUpVector bus m = some (pc, psw) →
    m.log.told = some ((psw.setWidth 8 : BitVec 8).setWidth 16 >>> 5)
  | _ => True

/-- The states of the runs with such power-ups -/
abbrev Told (bus : Bus) : Machine → Prop :=
  Transition.Reachable (· = .initial) fun s t => ∃ a, TellsPriority bus s a ∧ Does bus s a t

/-- `ka11_condstep` -/
def CondstepEnds (bus : Bus) (m : Machine) : Prop :=
  steps m.cpu = true → Ends bus (condstepStart m)

theorem condstepStart_coherent (hm : m.Coherent) : (condstepStart m).Coherent := by
  have hgrant : Kept 0 m (m.onBus .grantInterrupts) :=
    Kept.onBus m (e := .grantInterrupts) fun _ h => by cases h
  have hboth (n : Machine) (hn : n.Coherent) :
      (if steps n.cpu then n.mapCpu ({ · with state := .running }) else n).Coherent := by
    split
    · exact (Kept.quiet n fun _ => by rfl).coherent hn
    · exact hn
  unfold condstepStart
  refine hboth _ ?_
  split
  · exact hm
  · exact hgrant.coherent hm

/-- The vector fetch does not tell the priority. -/
theorem pwrup_coherent (hm : m.Coherent) (h : TellsPriority bus m .pwrup) :
    (pwrupVectorFetch bus m).Coherent := by
  let u : Machine := m.mapCpu ({ · with ba := 0o24 })
  have hprogram : vectorFetch bus m = (do
      dati bus false
      update fun cpu => cpu.setR 7 cpu.bdata
      update ({ · with ba := 0o26 })
      dati bus false
      modify fun m => m.loadPsw m.cpu.bdata : M Unit) u := rfl
  -- a fetch that fails leaves PSW and priority as they were
  have hfailed (t : Machine) (hv : vectorFetch bus m = .error () t)
      (htold : t.log.told = m.log.told) (hpsw : t.cpu.psw = m.cpu.psw)
      (hloaded : t.loaded = m.loaded) : (pwrupVectorFetch bus m).Coherent := by
    unfold pwrupVectorFetch
    rw [hv]
    intro hl
    show t.log.told = some (t.cpu.psw.setWidth 16 >>> 5)
    rw [htold, hpsw]
    exact hm (hloaded.symm.trans hl)
  have hfour : Word.odd 0o24 = false ∧ internal 0o24 = .none ∧ ubxt 0o24 &&& ~~~1 = 0o24 := by
    decide
  have hsix : Word.odd 0o26 = false ∧ internal 0o26 = .none ∧ ubxt 0o26 &&& ~~~1 = 0o26 := by
    decide
  cases h24 : bus.dati m.log 0o24 with
  | none =>
    have hd := dati_none (m := u) (p := 0o24) hfour.1 hfour.2.1 hfour.2.2 h24
    exact hfailed _ (hprogram.trans (bind_error _ hd)) rfl rfl rfl
  | some pc =>
    have hd := dati_some (m := u) (p := 0o24) hfour.1 hfour.2.1 hfour.2.2 h24
    let v : Machine := ((((u.onBus (.dati 0o24 (some pc))).mapCpu
      ({ · with bdata := pc })).cycleOk).mapCpu fun cpu => cpu.setR 7 cpu.bdata).mapCpu
        ({ · with ba := 0o26 })
    have hrest : vectorFetch bus m = (do
        dati bus false
        modify fun m => m.loadPsw m.cpu.bdata : M Unit) v := hprogram.trans (bind_ok _ hd)
    cases h26 : bus.dati (.dati 0o24 (some pc) :: m.log) 0o26 with
    | none =>
      have hd' := dati_none (m := v) (p := 0o26) hsix.1 hsix.2.1 hsix.2.2 h26
      exact hfailed _ (hrest.trans (bind_error _ hd')) rfl rfl rfl
    | some psw =>
      have hd' := dati_some (m := v) (p := 0o26) hsix.1 hsix.2.1 hsix.2.2 h26
      have hvector : powerUpVector bus m = some (pc, psw) := by
        rw [powerUpVector, h24, Option.bind_some, h26]
        rfl
      unfold pwrupVectorFetch
      rw [hrest, bind_ok _ hd']
      exact fun _ => h pc psw hvector

theorem Does.coherent {a : Action} {m' : Machine} (h : Does bus m a m') (hm : m.Coherent)
    (htells : TellsPriority bus m a) : m'.Coherent := by
  cases h with
  | idle => exact condstepStart_coherent hm
  | step _ hstep => exact hstep.coherent (condstepStart_coherent hm)
  | reset => exact (Kept.quiet m fun _ => by rfl).coherent hm
  | setintr vec => exact fun hloaded => by cases hloaded
  | pwrfail => exact (Kept.quiet m fun _ => by rfl).coherent hm
  | pwrup => exact pwrup_coherent hm htells
  | setState state => exact (Kept.quiet m fun _ => by rfl).coherent hm
  | setPc pc => exact (Kept.quiet m fun _ => by rfl).coherent hm
  | setSwitches sw => exact (Kept.quiet m fun _ => by rfl).coherent hm
  | setSwabVbit vbit => exact (Kept.quiet m fun _ => by rfl).coherent hm

/-- In runs with such power-ups the arbitrator knows the priority. A step ends where no trap
sequence of a bus error fails half-way, and nowhere else. -/
theorem told_and_ended (bus : Bus) :
    (∀ m, Told bus m → m.Coherent) ∧
      ∀ responds, bus.Fixed responds → ∀ m, CondstepEnds bus m ↔
        (steps m.cpu = true → TrapSound bus responds (condstepStart m)) := by
  constructor
  · intro m hm
    refine hm.invariant (fun s hs => ?_) fun s t hs ⟨a, htells, hdoes⟩ => hdoes.coherent hs htells
    rw [hs]
    exact fun h => by cases h
  · intro responds hfixed m
    exact imp_congr_right fun _ => ends_iff hfixed (condstepStart m)

/-! ## A power-up -/

/-- Every word reads 0340. -/
def highPriority : Bus where
  dati _ _ := some 0o340
  dato _ _ _ := true
  datob _ _ _ := true

/-- The power-up loads priority 7, and nobody is told. -/
theorem power_up_not_told :
    ∃ m, Transition.Reachable (· = .initial) (fun s t => ∃ a, Does highPriority s a t) m ∧
      ¬ m.Coherent := by
  refine ⟨pwrupVectorFetch highPriority .initial, .step (.init rfl) ⟨.pwrup, .pwrup _⟩, fun h => ?_⟩
  cases h rfl

end Ka11

end QUniBone
