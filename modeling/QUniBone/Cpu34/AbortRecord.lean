import QUniBone.Cpu34.Kd11ea

/-!
# What MMR0 to MMR2 are a record of

The history of a processor, read the way a fault handler reads the registers of the KT11-D:
which abort was recorded since MMR0 was last released, which instruction was fetched before it,
and what had its addressing modes changed.

* `recorded`: the abort recorded since the last release.
* `changes`, `lastFetched`: what the restart registers stand for.
* `Describes`: the registers agree with the history. There is one lemma for each kind of event.
-/

namespace QUniBone

open Kt11d

/-- The registers a fault handler reads, with the state that governs their updates. -/
structure Status where
  mmr0 : Word
  mmr1 : Word
  mmr2 : Word
  frozen : Bool
  count : ℕ

def Kt11d.status (mmu : Kt11d) : Status where
  mmr0 := mmu.mmr0
  mmr1 := mmu.mmr1
  mmr2 := mmu.mmr2
  frozen := mmu.frozen
  count := mmu.mmr1Count

/-! ## Reading the history -/

/-- `MMR0<15:13>` are clear after these events. -/
def CpuEvent.isRelease : CpuEvent → Bool
  | .init => true
  | .mmr0Write w => w &&& mmr0Aborts == 0
  | _ => false

/-- An abort: the registers as it left them, and what had happened before. -/
structure AbortRecord where
  mmr0 : Word
  mmr1 : Word
  mmr2 : Word
  before : List CpuEvent

/-- The abort recorded since the last release. -/
def recorded : List CpuEvent → Option AbortRecord
  | [] => none
  | .abort mmr0 mmr1 mmr2 :: hist => some ⟨mmr0, mmr1, mmr2, hist⟩
  | e :: hist => if e.isRelease then none else recorded hist

/-- What an abort, or the program, put into MMR0 last since the last release. -/
def lastLoaded : List CpuEvent → Option Word
  | [] => none
  | .abort mmr0 _ _ :: _ => some mmr0
  | .mmr0Write w :: _ => if w &&& mmr0Aborts = 0 then none else some w
  | .init :: _ => none
  | _ :: hist => lastLoaded hist

/-- The register changes since the last instruction began, if it began after the last
release. -/
def changes : List CpuEvent → Option (List (RegIdx × Word))
  | [] => none
  | .started :: _ => some []
  | .regChange reg amount :: hist => (changes hist).map (· ++ [(reg, amount)])
  | e :: hist => if e.isRelease then none else changes hist

/-- The address of the last opcode fetched since the last release. -/
def lastFetched : List CpuEvent → Option Word
  | [] => none
  | .fetched pc :: _ => some pc
  | e :: hist => if e.isRelease then none else lastFetched hist

/-- The changes MMR1 has room for: the PC is not recorded, and there are two bytes. -/
def loggable (cs : List (RegIdx × Word)) : List (RegIdx × Word) :=
  (cs.filter fun c => c.1 ≠ 7).take 2

namespace Reference

/-- One byte of MMR1: the amount in `<7:3>`, the register in `<2:0>`. -/
def mmr1Byte (c : RegIdx × Word) : BitVec 8 :=
  c.2.setWidth 5 ++ BitVec.ofNat 3 c.1.val

/-- MMR1 for the register changes of an instruction, the first one in the low byte. -/
def mmr1 (cs : List (RegIdx × Word)) : Word :=
  match loggable cs with
  | [] => 0
  | [c] => (mmr1Byte c).setWidth 16
  | c :: c' :: _ => mmr1Byte c' ++ mmr1Byte c

end Reference

/-- An instruction begun, and an opcode fetched, since the last release are in MMR1 and MMR2. -/
structure Restart (hist : List CpuEvent) (mmr1 mmr2 : Word) : Prop where
  mmr1 : ∀ cs, changes hist = some cs → mmr1 = Reference.mmr1 cs
  mmr2 : ∀ pc, lastFetched hist = some pc → mmr2 = pc

/-- `MMR0<6:1>`. -/
abbrev mmr0Where : Word := 0o176

/-- What a recorded abort says about the registers. -/
structure Kept (s : Status) (rec : AbortRecord) : Prop where
  mmr0 : s.mmr0 &&& mmr0Where = rec.mmr0 &&& mmr0Where
  mmr1 : s.mmr1 = rec.mmr1
  mmr2 : s.mmr2 = rec.mmr2
  /-- It is an abort, the only one since the last release, -/
  aborts : rec.mmr0 &&& mmr0Aborts ≠ 0
  first : recorded rec.before = none
  /-- and MMR1 and MMR2 told at that moment where to restart. -/
  restart : Restart rec.before rec.mmr1 rec.mmr2

/-- The registers agree with the history. -/
structure Describes (hist : List CpuEvent) (s : Status) : Prop where
  frozen : s.frozen = (lastLoaded hist).isSome
  aborts : ∀ w, lastLoaded hist = some w → s.mmr0 &&& mmr0Aborts = w &&& mmr0Aborts
  kept : ∀ rec, recorded hist = some rec → Kept s rec
  restart : s.frozen = false → Restart hist s.mmr1 s.mmr2
  count : s.frozen = false → ∀ cs, changes hist = some cs → s.count = (loggable cs).length

/-! ## MMR1 -/

theorem Reference.mmr1Byte_getLsbD (c : RegIdx × Word) (i : ℕ) :
    (mmr1Byte c).getLsbD i
      = if i < 3 then c.1.val.testBit i else decide (i < 8) && c.2.getLsbD (i - 3) := by
  have happend := BitVec.getLsbD_append (x := c.2.setWidth 5) (y := BitVec.ofNat 3 c.1.val) (i := i)
  refine happend.trans ?_
  split
  case isTrue hi => rw [BitVec.getLsbD_ofNat, decide_eq_true hi, Bool.true_and]
  case isFalse hi =>
    rw [BitVec.getLsbD_setWidth]
    congr 1
    exact decide_eq_decide.mpr (by omega)

theorem mmr1Entry_eq (reg : RegIdx) (amount : Word) :
    mmr1Entry reg amount = (Reference.mmr1Byte (reg, amount)).setWidth 16 := by
  have hreg : ∀ i, (7 : Word).getLsbD i = decide (i < 3) := by
    intro i
    refine (BitVec.getLsbD_ofNat 16 (2 ^ 3 - 1) i).trans ?_
    rw [Nat.testBit_two_pow_sub_one, ← Bool.decide_and]
    exact decide_eq_decide.mpr (by omega)
  have hamount : ∀ i, (0o37 : Word).getLsbD i = decide (i < 5) := by
    intro i
    refine (BitVec.getLsbD_ofNat 16 (2 ^ 5 - 1) i).trans ?_
    rw [Nat.testBit_two_pow_sub_one, ← Bool.decide_and]
    exact decide_eq_decide.mpr (by omega)
  apply BitVec.eq_of_getLsbD_eq
  intro i hi
  rw [BitVec.getLsbD_setWidth, Reference.mmr1Byte_getLsbD, mmr1Entry, BitVec.getLsbD_or,
    BitVec.getLsbD_shiftLeft, BitVec.getLsbD_and, BitVec.getLsbD_and, hreg, hamount,
    BitVec.getLsbD_ofNat]
  split
  case isTrue hlt => simp [hi, hlt]
  case isFalse hge =>
    have hiff : decide (i - 3 < 5) = decide (i < 8) := decide_eq_decide.mpr (by omega)
    simp only [hi, hge, hiff, decide_true, decide_false, Bool.not_false, Bool.true_and,
      Bool.and_false, Bool.or_false]
    rw [Bool.and_comm]

/-- The second entry goes to the high byte. -/
theorem mmr1Entry_shifted (first second : RegIdx × Word) :
    mmr1Entry first.1 first.2 ||| (mmr1Entry second.1 second.2 <<< 8)
      = Reference.mmr1Byte second ++ Reference.mmr1Byte first := by
  rw [mmr1Entry_eq, mmr1Entry_eq]
  apply BitVec.eq_of_getLsbD_eq
  intro i hi
  have happend := BitVec.getLsbD_append (x := Reference.mmr1Byte second)
    (y := Reference.mmr1Byte first) (i := i)
  refine Eq.trans ?_ happend.symm
  rw [BitVec.getLsbD_or, BitVec.getLsbD_shiftLeft, BitVec.getLsbD_setWidth,
    BitVec.getLsbD_setWidth]
  split
  case isTrue hlt => simp [hi, hlt, -BitVec.getLsbD_eq_getElem]
  case isFalse hge =>
    have hfirst := BitVec.getLsbD_of_ge (Reference.mmr1Byte first) i (by omega)
    have hsecond : i - 8 < 16 := by omega
    simp [hi, hge, hfirst, hsecond, -BitVec.getLsbD_eq_getElem]

/-- One more register change: it is recorded while there is room. -/
theorem loggable_append (cs : List (RegIdx × Word)) (c : RegIdx × Word) :
    loggable (cs ++ [c])
      = if c.1 = 7 ∨ 2 ≤ (loggable cs).length then loggable cs else loggable cs ++ [c] := by
  unfold loggable
  rw [List.filter_append, List.length_take]
  by_cases hpc : c.1 = 7
  · simp [hpc]
  · have hfilter : [c].filter (fun c => decide (c.1 ≠ 7)) = [c] := by simp [hpc]
    rw [hfilter, List.take_append]
    split
    case isTrue hfull =>
      have hroom : 2 - (cs.filter fun c => decide (c.1 ≠ 7)).length = 0 := by
        rcases hfull with hfull | hfull
        · exact absurd hfull hpc
        · omega
      rw [hroom, List.take_zero, List.append_nil]
    case isFalse hfull =>
      rw [List.take_of_length_le (l := [c])]
      simp only [not_or] at hfull
      simp only [List.length_singleton]
      omega

theorem Reference.mmr1_append (cs : List (RegIdx × Word)) (c : RegIdx × Word) :
    mmr1 (cs ++ [c])
      = if c.1 = 7 ∨ 2 ≤ (loggable cs).length then mmr1 cs
        else if (loggable cs).length = 0 then mmr1Entry c.1 c.2
        else mmr1 cs ||| (mmr1Entry c.1 c.2 <<< 8) := by
  by_cases hfull : c.1 = 7 ∨ 2 ≤ (loggable cs).length
  · rw [mmr1, loggable_append, if_pos hfull, if_pos hfull]
    rfl
  · rw [mmr1, loggable_append, if_neg hfull, if_neg hfull]
    match hlog : loggable cs with
    | [] => exact (mmr1Entry_eq _ _).symm
    | [c'] =>
        have hold : mmr1 cs = mmr1Entry c'.1 c'.2 := by
          rw [mmr1, hlog]
          exact (mmr1Entry_eq _ _).symm
        rw [hold]
        exact (mmr1Entry_shifted c' c).symm
    | _ :: _ :: _ =>
        rw [hlog] at hfull
        exact absurd (.inr (by simp)) hfull

/-! ## One event -/

theorem isRelease_mmr0Write (w : Word) :
    (CpuEvent.mmr0Write w).isRelease = true ↔ w &&& mmr0Aborts = 0 := beq_iff_eq

theorem isSome_lastLoaded {hist : List CpuEvent} {rec : AbortRecord}
    (h : recorded hist = some rec) : (lastLoaded hist).isSome = true := by
  induction hist with
  | nil => cases h
  | cons e hist ih =>
      cases e with
      | abort => rfl
      | init => cases h
      | mmr0Write w =>
          by_cases hw : w &&& mmr0Aborts = 0
          · have hnone : recorded (.mmr0Write w :: hist) = none :=
              if_pos ((isRelease_mmr0Write w).mpr hw)
            rw [hnone] at h
            cases h
          · have hloaded : lastLoaded (.mmr0Write w :: hist) = some w := if_neg hw
            rw [hloaded]
            rfl
      | started => exact ih h
      | fetched => exact ih h
      | regChange => exact ih h
      | internalRef => exact ih h

namespace Describes

variable {hist : List CpuEvent} {s : Status}

theorem lastLoaded_eq_none (h : Describes hist s) (hfrozen : s.frozen = false) :
    lastLoaded hist = none := by
  rw [← Option.not_isSome_iff_eq_none, ← h.frozen, hfrozen]
  exact Bool.false_ne_true

theorem recorded_eq_none (h : Describes hist s) (hfrozen : s.frozen = false) :
    recorded hist = none := by
  cases hrec : recorded hist with
  | none => rfl
  | some rec =>
      have hloaded := isSome_lastLoaded hrec
      rw [← h.frozen, hfrozen] at hloaded
      cases hloaded

/-- A register of the processor is referenced. -/
theorem internalRef (h : Describes hist s) (pa : UInt) : Describes (.internalRef pa :: hist) s :=
  ⟨h.frozen, h.aborts, h.kept,
    fun hfrozen => ⟨(h.restart hfrozen).mmr1, (h.restart hfrozen).mmr2⟩, h.count⟩

/-- Before an abort is recorded mode and page of each reference go to MMR0. -/
theorem loadMmr0 (h : Describes hist s) (hfrozen : s.frozen = false) (mmr0 : Word) :
    Describes hist { s with mmr0 := mmr0 } where
  frozen := h.frozen
  aborts := by
    rw [h.lastLoaded_eq_none hfrozen]
    nofun
  kept := by
    rw [h.recorded_eq_none hfrozen]
    nofun
  restart := h.restart
  count := h.count

theorem abort (h : Describes hist s) (hfrozen : s.frozen = false) {mmr0 : Word}
    (hmmr0 : mmr0 &&& mmr0Aborts ≠ 0) : Describes (.abort mmr0 s.mmr1 s.mmr2 :: hist)
      { s with mmr0 := mmr0, frozen := true } where
  frozen := rfl
  aborts := by
    rintro w ⟨⟩
    rfl
  kept := by
    rintro rec ⟨⟩
    exact ⟨rfl, rfl, rfl, hmmr0, h.recorded_eq_none hfrozen, h.restart hfrozen⟩
  restart := nofun
  count := nofun

/-- The program writes MMR0. -/
theorem mmr0Write (h : Describes hist s) {mmr0 : Word}
    (hwhere : mmr0 &&& mmr0Where = s.mmr0 &&& mmr0Where) : Describes (.mmr0Write mmr0 :: hist)
      { s with mmr0 := mmr0, frozen := mmr0 &&& mmr0Aborts != 0 } := by
  by_cases hw : mmr0 &&& mmr0Aborts = 0
  · -- a release: nothing is on record
    have hrelease := (isRelease_mmr0Write mmr0).mpr hw
    have hnone : recorded (.mmr0Write mmr0 :: hist) = none := if_pos hrelease
    have hchanges : changes (.mmr0Write mmr0 :: hist) = none := if_pos hrelease
    have hfetched : lastFetched (.mmr0Write mmr0 :: hist) = none := if_pos hrelease
    have hloaded : lastLoaded (.mmr0Write mmr0 :: hist) = none := if_pos hw
    constructor
    · rw [hloaded]
      exact bne_eq_false_iff_eq.mpr hw
    · rw [hloaded]
      nofun
    · rw [hnone]
      nofun
    · refine fun _ => ⟨?_, ?_⟩
      · rw [hchanges]
        nofun
      · rw [hfetched]
        nofun
    · rw [hchanges]
      nofun
  · have hrelease : ¬CpuEvent.isRelease (.mmr0Write mmr0) = true :=
      fun h => hw ((isRelease_mmr0Write mmr0).mp h)
    have hsome : recorded (.mmr0Write mmr0 :: hist) = recorded hist := if_neg hrelease
    have hloaded : lastLoaded (.mmr0Write mmr0 :: hist) = some mmr0 := if_neg hw
    have hfrozen : (mmr0 &&& mmr0Aborts != 0) = true := bne_iff_ne.mpr hw
    constructor
    · rw [hloaded]
      exact hfrozen
    · rw [hloaded]
      rintro w ⟨⟩
      rfl
    · rw [hsome]
      intro rec hrec
      have hkept := h.kept rec hrec
      exact { hkept with mmr0 := hwhere.trans hkept.mmr0 }
    · intro hf
      cases hfrozen.symm.trans hf
    · intro hf
      cases hfrozen.symm.trans hf

/-- INIT, which clears the registers. -/
theorem init (hfrozen : s.frozen = false) : Describes (.init :: hist) s where
  frozen := hfrozen
  aborts := nofun
  kept := nofun
  restart := fun _ => ⟨nofun, nofun⟩
  count := fun _ => nofun

theorem started (h : Describes hist s) : Describes (.started :: hist)
    (if s.frozen then s else { s with mmr1 := 0, count := 0 }) := by
  split
  case isTrue hfrozen =>
    refine ⟨h.frozen, h.aborts, h.kept, ?_, ?_⟩ <;> rw [hfrozen] <;> nofun
  case isFalse hfrozen =>
    have hfrozen : s.frozen = false := by simpa using hfrozen
    have hrec := h.recorded_eq_none hfrozen
    refine ⟨h.frozen, h.aborts, fun rec hr => ?_, fun _ => ⟨?_, (h.restart hfrozen).mmr2⟩, ?_⟩
    · have hr : recorded hist = some rec := hr
      rw [hrec] at hr
      cases hr
    · rintro _ ⟨⟩
      rfl
    · rintro _ _ ⟨⟩
      rfl

theorem fetched (h : Describes hist s) (pc : Word) : Describes (.fetched pc :: hist)
    (if s.frozen then s else { s with mmr2 := pc }) := by
  split
  case isTrue hfrozen =>
    refine ⟨h.frozen, h.aborts, h.kept, ?_, ?_⟩ <;> rw [hfrozen] <;> nofun
  case isFalse hfrozen =>
    have hfrozen : s.frozen = false := by simpa using hfrozen
    have hrec := h.recorded_eq_none hfrozen
    refine ⟨h.frozen, h.aborts, fun rec hr => ?_, fun _ => ⟨(h.restart hfrozen).mmr1, ?_⟩, h.count⟩
    · have hr : recorded hist = some rec := hr
      rw [hrec] at hr
      cases hr
    · rintro _ ⟨⟩
      rfl

theorem regChange (h : Describes hist s) (reg : RegIdx) (amount : Word) :
    Describes (.regChange reg amount :: hist)
      (if s.frozen ∨ reg = 7 ∨ 2 ≤ s.count then s
        else { s with
          mmr1 := if s.count = 0 then mmr1Entry reg amount
            else s.mmr1 ||| (mmr1Entry reg amount <<< 8)
          count := s.count + 1 }) := by
  by_cases hfrozen : s.frozen = true
  · rw [if_pos (.inl hfrozen)]
    refine ⟨h.frozen, h.aborts, h.kept, ?_, ?_⟩ <;> rw [hfrozen] <;> nofun
  · have hunfrozen : s.frozen = false := by simpa using hfrozen
    have hrestart := h.restart hunfrozen
    have hrec : recorded (.regChange reg amount :: hist) = none := h.recorded_eq_none hunfrozen
    by_cases hfull : reg = 7 ∨ 2 ≤ s.count
    · -- neither the PC nor a third change is recorded
      rw [if_pos (.inr hfull)]
      refine ⟨h.frozen, h.aborts, by rw [hrec]; nofun, fun _ => ⟨?_, hrestart.mmr2⟩, fun _ => ?_⟩
      all_goals
        intro cs hcs
        obtain ⟨cs', hcs', rfl⟩ := Option.map_eq_some_iff.mp hcs
        rw [h.count hunfrozen cs' hcs'] at hfull
      · rw [Reference.mmr1_append, if_pos hfull]
        exact hrestart.mmr1 cs' hcs'
      · rw [loggable_append, if_pos hfull]
        exact h.count hunfrozen cs' hcs'
    · rw [if_neg (not_or.mpr ⟨hfrozen, hfull⟩)]
      refine ⟨h.frozen, h.aborts, by rw [hrec]; nofun, fun _ => ⟨?_, hrestart.mmr2⟩, fun _ => ?_⟩
      all_goals
        intro cs hcs
        obtain ⟨cs', hcs', rfl⟩ := Option.map_eq_some_iff.mp hcs
        have hcount := h.count hunfrozen cs' hcs'
        rw [hcount] at hfull
      · rw [Reference.mmr1_append, if_neg hfull, ← hrestart.mmr1 cs' hcs', ← hcount]
      · rw [loggable_append, if_neg hfull, List.length_append, ← hcount]
        rfl

end Describes

end QUniBone
