import QUniBone.Cpu34.InstructionPlans

/-!
# What an abort takes back

`step()` makes its references in three kinds of sequences: the opcode fetch, the instruction and
the trap sequence. When a reference fails, the autoincrement pending at that moment is taken
back. It ought to be the one which formed the address of that reference.

* `Sequence`: the sequences, and the states they start from.
* `OwnEffects`: what an abort may leave behind.
* `Sequence.Stale`: the pending autoincrement belongs to something else.
* `abort_effects_iff`: an abort has its own effects unless that is so.
-/

namespace QUniBone.Kd11ea

open Prog

/-! ## Sequences -/

/-- The parts of `step()` which make references. -/
inductive Sequence where
  /-- The opcode fetch. -/
  | fetch
  /-- The instruction after its fetch. -/
  | instruction (ir : Word)
  /-- One round of the trap sequence: of a trap, an abort or an external interrupt. -/
  | trap (inhov : Bool)

def Sequence.run (bus : Bus) : Sequence → M Unit
  | .fetch => do
      let _ ← Kd11ea.fetch bus
      return
  | .instruction ir => do
      let _ ← execute bus ir
      return
  | .trap inhov => trapSequence bus inhov

/-- The sequence starts in `m`, `m₀` being the machine whose PSW is `oldpsw`. -/
def Sequence.Starts (bus : Bus) (m₀ m : Machine) : Sequence → Prop
  | .fetch => m = m₀
  | .instruction ir => Kd11ea.fetch bus m₀ = .ok ir m
  | .trap _ => m = m₀

/-- The words of the vector, PC and PSW. -/
def vectorRead (bus : Bus) : M (Word × Word) := do
  let newpc ← vectorFetch bus
  update fun cpu => { cpu with ba := cpu.r 10 + 2 }
  dati bus false
  let newpsw ← look (·.bdata)
  return (newpc, newpsw)

/-! ## The effects of an abort -/

/-- How many references were made between two states. -/
def made (m m' : Machine) : ℕ := m'.references - m.references

/-- The next trap pushes the condition codes from before the instruction. -/
def CodesRestored (m₀ m' : Machine) : Prop :=
  ∀ s, busError m' false (some m₀.cpu.psw) = .inr s →
    CC.ofPsw s.machine.cpu.psw = CC.ofPsw m₀.cpu.psw

/-- The trap sequence changes no general register but SP, which a failed push leaves at the
address of that push. -/
def TrapRegisters (m m' : Machine) : Prop :=
  (∀ i : RegIdx, i.val < 8 → i ≠ 6 → m'.cpu.r i = m.cpu.r i) ∧
    m'.cpu.r 6 = if made m m' < 2 then m.cpu.r 6 else m'.cpu.ba

/-- The condition codes are the old ones as long as the vector is read, then those of the
vector, unless the push of the old PSW itself was answered by the PSW. -/
def TrapCodes (bus : Bus) (inhov : Bool) (m m' : Machine) : Prop :=
  (∀ s, busError m' inhov none = .inr s → s.machine.cpu.psw = m'.cpu.psw) ∧
    if made m m' < 2 then m'.cpu.psw = m.cpu.psw
    else ∃ newpc newpsw t new, vectorRead bus m = .ok (newpc, newpsw) t ∧
      m'.hist = new ++ t.hist ∧ (CC.ofPsw m'.cpu.psw = CC.ofPsw newpsw ∨
        ∃ pa, .internalRef pa ∈ new ∧ (pa = 0o777776 ∨ pa = 0o777777))

/-- The abort which left `m'` had the side effects of the reference that failed. -/
def OwnEffects (bus : Bus) (m₀ m m' : Machine) : Sequence → Prop
  | .fetch => Aborts [.idle] (made m m') (general m.cpu) (general m'.cpu) ∧ CodesRestored m₀ m'
  | .instruction ir =>
      (∃ pc, Aborts (plan ir pc) (made m m') (general m.cpu) (general m'.cpu)) ∧
        CodesRestored m₀ m'
  | .trap inhov => TrapRegisters m m' ∧ TrapCodes bus inhov m m'

/-- An autoincrement of a general register is pending. -/
def Pending (cpu : Kd11ea) : Prop :=
  ∃ r amount, cpu.autoinc = some (r, amount) ∧ r.val < 8 ∧ amount ≠ 0

/-- The autoincrement pending at reference `k` did not form its address: it is the jump address
of a `JSR` which pushes, or was left behind when the trap sequence began. -/
def Sequence.Stale (m : Machine) (k : ℕ) : Sequence → Prop
  | .fetch => False
  | .instruction ir => kindOf ir = .jsr ∧ (dstOf ir).addrMode = 2
  | .trap _ => k = 0 ∧ Pending m.cpu

/-! ## Condition codes -/

theorem codesRestored (m₀ m' : Machine) : CodesRestored m₀ m' := by
  intro s hs
  unfold busError at hs
  split at hs
  · cases hs
  · cases hs
    show CC.ofPsw (Word.setmask m'.cpu.psw m₀.cpu.psw 0o17) = _
    rw [← CC.store_ofPsw, CC.ofPsw_store]

/-! ## Instructions -/

/-- Only the autoincrement mode proper leaves an increment pending. -/
theorem forming_own (m : Word) (byte : Bool) :
    (forming m byte).2.own
      = if m.addrMode = 2 then some (m.reg, autoincAmount m byte) else none := by
  have hmode : ∀ mode : BitVec 3, mode = 2 ↔ mode &&& 6 = 2 ∧ mode.getLsbD 0 = false := by decide
  unfold forming
  dsimp only
  by_cases hbit : m.addrMode.getLsbD 0 = true
  · have hne : ¬m.addrMode = 2 := fun h => by rw [h] at hbit; cases hbit
    rw [if_pos hbit, if_neg hne]
    split <;> rfl
  · rw [if_neg hbit]
    have hbit : m.addrMode.getLsbD 0 = false := by simpa using hbit
    by_cases h2 : m.addrMode &&& 6 = 2
    · rw [if_pos ((hmode _).mpr ⟨h2, hbit⟩), if_neg (by rw [h2]; decide), if_pos h2]
    · rw [if_neg fun h => h2 ((hmode _).mp h).1]
      split_ifs <;> rfl

/-- Only the plan of `JSR` depends on what is pending at its push. -/
theorem planWith_own {kind : Kind} (h : kind ≠ .jsr) (ir pc : Word)
    (own own' : Option (RegIdx × Word)) :
    kind.planWith ir pc own = kind.planWith ir pc own' := by
  cases kind with
  | jsr => exact absurd rfl h
  | _ => rfl

theorem autoincAmount_word (m : Word) : autoincAmount m false = 2 := by simp [autoincAmount]

theorem forming_inc {m : Word} (byte : Bool) (h : m.addrMode = 2) : forming m byte
    = ([], ⟨[.add m.reg (autoincAmount m byte) true], some (m.reg, autoincAmount m byte)⟩) := by
  unfold forming
  simp [h]

/-- Taking something back shows. -/
theorem backOut_ne (r : RegIdx) {amount : Word} (hamount : amount ≠ 0) (regs : RegIdx → Word) :
    backOut (some (r, amount)) regs ≠ regs := by
  intro h
  have hr := congrFun h r
  rw [backOut_some, Function.update_self, BitVec.sub_eq_iff_eq_add] at hr
  exact hamount (BitVec.self_eq_add_right.mp hr)

theorem instruction_effects_iff {bus : Bus} {ir : Word} {m₀ m m' : Machine}
    (hfetch : fetch bus m₀ = .ok ir m) (h : execute bus ir m = .error () m') :
    (∃ pc, Aborts (plan ir pc) (made m m') (general m.cpu) (general m'.cpu)) ↔
      ¬(kindOf ir = .jsr ∧ (dstOf ir).addrMode = 2) := by
  obtain ⟨pc, k, haborted⟩ := execute_aborted (fetch_ir hfetch) (fetch_view hfetch).1 h
  have hmade : made m m' = k := by
    have hrefs : m'.references = m.references + k := haborted.references
    unfold made
    omega
  have haborts : Aborts ((kindOf ir).planWith ir pc (pendingOf ir)) k (general m.cpu)
      (general m'.cpu) := haborted.aborts
  rw [hmade]
  constructor
  · rintro ⟨pc', hplan⟩ ⟨hjsr, hmode⟩
    -- the push is the only reference, and the jump address is still pending there
    have hown : pendingOf ir = some ((dstOf ir).reg, 2) := by
      rw [pendingOf, forming_own, if_pos hmode, autoincAmount_word]
    unfold plan at hplan
    rw [hjsr, Kind.planWith, forming_inc false hmode] at hplan haborts
    rw [hown] at haborts
    obtain ⟨s, hs, hkept⟩ := hplan
    obtain ⟨t, ht, htaken⟩ := haborts
    cases k with
    | zero =>
        cases hs
        cases ht
        exact backOut_ne (dstOf ir).reg (by decide) _ (htaken.symm.trans hkept)
    | succ k => cases hs
  · intro hstale
    refine ⟨pc, ?_⟩
    have hsame : (kindOf ir).planWith ir pc (pendingOf ir) = plan ir pc := by
      by_cases hjsr : kindOf ir = .jsr
      · have hmode : ¬(dstOf ir).addrMode = 2 := fun hmode => hstale ⟨hjsr, hmode⟩
        have hnone : pendingOf ir = none := by
          unfold pendingOf
          rw [forming_own, if_neg hmode]
        rw [hnone]
        rfl
      · exact planWith_own hjsr ir pc _ _
    rwa [hsame] at haborts

theorem fetch_effects {bus : Bus} {m m' : Machine} (h : fetch bus m = .error () m') :
    Aborts [.idle] (made m m') (general m.cpu) (general m'.cpu) := by
  have hends := dati_ends bus false (m := fetching m) nofun
  rw [fetch_error h] at hends
  obtain ⟨frozen, hview⟩ := hends
  have hmade : made m m' = 0 := by
    have hrefs : m'.references = m.references := by
      have hstarted : (fetching m).references = m.references := by
        unfold Machine.references
        exact congrArg _ (List.countP_cons_of_neg Bool.false_ne_true)
      exact (congrArg (·.references) hview).trans hstarted
    unfold made
    omega
  rw [hmade]
  exact ⟨.idle, rfl, congrArg (·.regs) hview⟩

/-! ## The trap sequence -/

theorem autoincUndo_congr {cpu cpu' : Kd11ea} (hr : cpu'.r = cpu.r)
    (hautoinc : cpu'.autoinc = cpu.autoinc) : cpu'.autoincUndo.r = cpu.autoincUndo.r := by
  unfold autoincUndo
  rw [hautoinc]
  cases cpu.autoinc with
  | none => exact hr
  | some own => rw [← hr]

theorem autoincUndo_none (cpu : Kd11ea) (h : cpu.autoinc = none) : cpu.autoincUndo = cpu := by
  unfold autoincUndo
  rw [h]

/-- Of what is looked at here, a failed cycle changes the autoincremented register only. -/
theorem cycleFailed_frame (m : Machine) (vector : Word) :
    (m.cycleFailed vector).cpu.r = m.cpu.autoincUndo.r ∧
      (m.cycleFailed vector).cpu.psw = m.cpu.psw ∧ (m.cycleFailed vector).cpu.ba = m.cpu.ba := by
  refine ⟨autoincUndo_congr rfl rfl, ?_⟩
  unfold Machine.cycleFailed Machine.mapCpu autoincUndo
  dsimp only
  split <;> exact ⟨rfl, rfl⟩

theorem translated_hist_append (m : Machine) (access : Access) :
    ∃ new, (m.translated access).hist = new ++ m.hist := by
  unfold Machine.translated
  dsimp only
  split
  · exact ⟨[_], rfl⟩
  · exact ⟨[], rfl⟩

/-- The ways a cycle fails. -/
inductive FailedFrom (m : Machine) : Machine → Prop
  | odd : FailedFrom m (m.cycleFailed 4)
  | translated {t : Machine} (access : Access) (vector : Word) :
      t.cpu = (m.translated access).cpu → t.hist = (m.translated access).hist →
      t.references = m.references → FailedFrom m (t.cycleFailed vector)

theorem translated_references (m : Machine) (access : Access) :
    (m.translated access).references = m.references := by
  obtain ⟨_, hview, -⟩ := translated_view m access
  exact congrArg (·.references) hview

theorem dati_failedFrom {bus : Bus} {byte : Bool} {m m' : Machine}
    (h : dati bus byte m = .error () m') : FailedFrom m m' := by
  have hspec := dati_spec bus byte m
  rw [h] at hspec
  cases hspec with
  | odd => exact .odd
  | aborted => exact .translated .read _ rfl rfl (translated_references m .read)
  | timeout => exact .translated .read _ rfl rfl (translated_references m .read)

theorem dato_failedFrom {bus : Bus} {byte : Bool} {m m' : Machine}
    (h : dato bus byte m = .error () m') : FailedFrom m m' := by
  have hspec := dato_spec bus byte m
  rw [h] at hspec
  cases hspec with
  | odd => exact .odd
  | aborted => exact .translated .write _ rfl rfl (translated_references m .write)
  | timeout =>
      refine .translated .write _ rfl rfl ?_
      rw [← translated_references m .write]
      cases byte <;> rfl

/-- A failed cycle, whatever was pending. -/
theorem FailedFrom.frame {m m' : Machine} (h : FailedFrom m m') :
    m'.cpu.r = m.cpu.autoincUndo.r ∧ m'.cpu.autoinc = none ∧ m'.cpu.psw = m.cpu.psw ∧
      m'.cpu.ba = m.cpu.ba ∧ m'.references = m.references ∧ ∃ new, m'.hist = new ++ m.hist := by
  cases h with
  | odd =>
      obtain ⟨hr, hpsw, hba⟩ := cycleFailed_frame m 4
      exact ⟨hr, autoincUndo_autoinc _, hpsw, hba, rfl, [], rfl⟩
  | @translated t access vector hcpu hhist hrefs =>
      obtain ⟨hr, hpsw, hba⟩ := cycleFailed_frame t vector
      rw [hcpu, translated_cpu] at hpsw hba
      obtain ⟨new, hnew⟩ := translated_hist_append m access
      refine ⟨hr.trans (autoincUndo_congr ?_ ?_), autoincUndo_autoinc _, hpsw, hba, hrefs, new,
        hhist.trans hnew⟩ <;> rw [hcpu, translated_cpu]

/-- A read that succeeded. -/
theorem dati_ok {bus : Bus} {byte : Bool} {m m' : Machine} (h : dati bus byte m = .ok () m') :
    m'.cpu.r = m.cpu.r ∧ m'.cpu.autoinc = none ∧ m'.cpu.psw = m.cpu.psw ∧
      m'.references = m.references + 1 := by
  have hcpu := translated_cpu m .read
  have hr : (m.translated .read).cpu.r = m.cpu.r := by rw [hcpu]
  have hpsw : (m.translated .read).cpu.psw = m.cpu.psw := by rw [hcpu]
  have hrefs := translated_references m .read
  have hspec := dati_spec bus byte m
  rw [h] at hspec
  cases hspec with
  | internal => exact ⟨hr, rfl, hpsw, hrefs ▸ references_internalRef (m.translated .read) _⟩
  | answered => exact ⟨hr, rfl, hpsw, hrefs ▸ references_onBus (m.translated .read) rfl⟩

theorem setPsw_r (cpu : Kd11ea) (w : Word) {i : RegIdx} (hi : i ≠ 6) :
    (cpu.setPsw w).r i = cpu.r i := by
  unfold setPsw
  dsimp only
  split
  · exact Function.update_of_ne hi _ _
  · rfl

theorem setPsw_frame (cpu : Kd11ea) (w : Word) :
    (cpu.setPsw w).autoinc = cpu.autoinc ∧ (cpu.setPsw w).psw = w &&& pswMask := by
  unfold setPsw
  dsimp only
  split <;> exact ⟨rfl, rfl⟩

/-- The codes of the vector are those of the new PSW. -/
theorem ofPsw_newpsw (newpsw trappedPsw : Word) :
    CC.ofPsw (((newpsw &&& ~~~(0o30000 : Word)) ||| ((trappedPsw >>> 2) &&& 0o30000)) &&& pswMask)
      = CC.ofPsw newpsw := by
  have hbit : ∀ i < 4, (((newpsw &&& ~~~(0o30000 : Word)) ||| ((trappedPsw >>> 2) &&& 0o30000))
      &&& pswMask).getLsbD i = newpsw.getLsbD i := by
    intro i hi
    have hmask : (0o30000 : Word).getLsbD i = false ∧ pswMask.getLsbD i = true := by
      interval_cases i <;> decide
    rw [BitVec.getLsbD_and, BitVec.getLsbD_or, BitVec.getLsbD_and, BitVec.getLsbD_and,
      BitVec.getLsbD_not, hmask.1, hmask.2]
    simp [show i < 16 by omega]
  unfold CC.ofPsw
  rw [hbit 0 (by omega), hbit 1 (by omega), hbit 2 (by omega), hbit 3 (by omega)]

/-- A write answered inside the processor. -/
theorem internalWrite_frame {t u : Machine} {pa : UInt} {byte : Bool}
    (h : InternalWrite t pa byte u) :
    (∀ i ≠ 6, u.cpu.r i = t.cpu.r i) ∧ u.references = t.references ∧
      (∃ new, u.hist = new ++ t.hist) ∧
      (u.cpu.psw = t.cpu.psw ∨ pa = 0o777776 ∨ pa = 0o777777) := by
  cases h with
  | mmr0 =>
      refine ⟨fun _ _ => rfl, ?_, ⟨[_], rfl⟩, .inl rfl⟩
      unfold Machine.references
      exact congrArg _ (List.countP_cons_of_neg Bool.false_ne_true)
  | register => exact ⟨fun _ _ => rfl, rfl, ⟨[], rfl⟩, .inl rfl⟩
  | switches => exact ⟨fun _ _ => rfl, rfl, ⟨[], rfl⟩, .inl rfl⟩
  | psw hpa =>
      refine ⟨fun i hi => setPsw_r t.cpu _ hi, ?_, ⟨[], rfl⟩, .inr hpa⟩
      unfold Machine.references
      exact congrArg (· + _) (List.countP_cons_of_neg Bool.false_ne_true)

/-- A write that succeeded. It changes SP if it changes the mode. -/
theorem dato_ok {bus : Bus} {m m' : Machine} (h : dato bus false m = .ok () m') :
    (∀ i ≠ 6, m'.cpu.r i = m.cpu.r i) ∧ m'.cpu.autoinc = none ∧
      m'.references = m.references + 1 ∧ ∃ new, m'.hist = new ++ m.hist ∧
        (m'.cpu.psw = m.cpu.psw ∨
          ∃ pa, .internalRef pa ∈ new ∧ (pa = 0o777776 ∨ pa = 0o777777)) := by
  have hcpu := translated_cpu m .write
  have hrefs := translated_references m .write
  obtain ⟨new, hnew⟩ := translated_hist_append m .write
  have hspec := dato_spec bus false m
  rw [h] at hspec
  cases hspec with
  | acknowledged =>
      refine ⟨fun i _ => ?_, rfl, ?_, new, hnew, .inl ?_⟩
      · show (m.translated .write).cpu.r i = _
        rw [hcpu]
      · rw [← hrefs]
        exact references_onBus _ rfl
      · show (m.translated .write).cpu.psw = _
        rw [hcpu]
  | @internal pa t _ hwrite =>
      obtain ⟨hr, hrefs', ⟨new', hnew'⟩, hpsw⟩ := internalWrite_frame (writeInternal_spec hwrite)
      refine ⟨fun i hi => ?_, rfl, ?_, .internalRef pa :: (new' ++ new), ?_, ?_⟩
      · refine (hr i hi).trans ?_
        rw [hcpu]
      · rw [← hrefs, ← hrefs']
        exact references_internalRef t pa
      · show CpuEvent.internalRef pa :: t.hist = _
        rw [hnew', hnew, List.cons_append, List.append_assoc]
      · refine hpsw.imp (fun hsame => ?_) fun hpa => ⟨pa, List.mem_cons_self, hpa⟩
        refine hsame.trans ?_
        rw [hcpu]

/-- The old PSW and PC are pushed, onto the stack of the handler. -/
structure Pushing (t : Machine) (cc : CC) (n : ℕ) (m : Machine) : Prop where
  regs : ∀ i : RegIdx, i ≠ 6 → m.cpu.r i = t.cpu.r i
  autoinc : m.cpu.autoinc = none
  references : m.references = t.references + n
  codes : ∃ new, m.hist = new ++ t.hist ∧ (CC.ofPsw m.cpu.psw = cc ∨
    ∃ pa, .internalRef pa ∈ new ∧ (pa = 0o777776 ∨ pa = 0o777777))

/-- A push failed. -/
structure PushFailed (t : Machine) (cc : CC) (n : ℕ) (m : Machine) : Prop where
  pushing : ∃ k < n, Pushing t cc k m
  sp : m.cpu.r 6 = m.cpu.ba

/-- The machine at the write of a push. -/
def pushed (m : Machine) (traps : Traps) (bdata : Word) : Machine :=
  m.mapCpu fun cpu => { cpu.setR 6 (cpu.r 6 - 2) with
    traps := traps
    ba := cpu.r 6 - 2
    bdata := bdata
    mmu := { cpu.mmu with destRef := false } }

theorem push_eq (bus : Bus) (inhov : Bool) (d : Kd11ea → Word) (m : Machine) :
    ∃ traps bdata, (push inhov >>= fun _ => outSp bus d) m
      = dato bus false (pushed m traps bdata) := by
  let low := m.mapCpu fun cpu => (cpu.setR 6 (cpu.r 6 - 2)).setDestRef false
  have hdone : ∀ traps, ∃ bdata,
      outSp bus d (low.mapCpu ({ · with traps := traps })) = dato bus false (pushed m traps bdata) :=
    fun traps => ⟨_, rfl⟩
  cases inhov with
  | true =>
      obtain ⟨bdata, hout⟩ := hdone m.cpu.traps
      exact ⟨m.cpu.traps, bdata, hout⟩
  | false =>
      by_cases hlimit : low.cpu.isKernel ∧ low.cpu.r 6 &&& ~~~0o377 = 0
      · obtain ⟨bdata, hout⟩ := hdone { low.cpu.traps with stack := true }
        have hstack : stackLimit low.cpu (low.cpu.r 6) = _ := if_pos hlimit
        exact ⟨_, bdata, Eq.trans (congrArg (fun cpu : Kd11ea =>
          outSp bus d { low with cpu := cpu }) hstack) hout⟩
      · obtain ⟨bdata, hout⟩ := hdone m.cpu.traps
        have hstack : stackLimit low.cpu (low.cpu.r 6) = _ := if_neg hlimit
        exact ⟨_, bdata, Eq.trans (congrArg (fun cpu : Kd11ea =>
          outSp bus d { low with cpu := cpu }) hstack) hout⟩

theorem push_pushing {t : Machine} {cc : CC} {n : ℕ} (bus : Bus) (inhov : Bool)
    (d : Kd11ea → Word) : Triple (Pushing t cc n) (push inhov >>= fun _ => outSp bus d)
      (fun _ => Pushing t cc (n + 1)) (PushFailed t cc (n + 1)) := by
  intro m hm
  obtain ⟨traps, bdata, heq⟩ := push_eq bus inhov d m
  rw [heq]
  have hregs : ∀ i : RegIdx, i ≠ 6 → (pushed m traps bdata).cpu.r i = t.cpu.r i :=
    fun i hi => (setR_other m.cpu _ hi).trans (hm.regs i hi)
  cases hres : dato bus false (pushed m traps bdata) with
  | ok _ m' =>
      obtain ⟨hr, hnone, hrefs, new, hnew, hpsw⟩ := dato_ok hres
      obtain ⟨old, hold, hcodes⟩ := hm.codes
      refine ⟨fun i hi => (hr i hi).trans (hregs i hi), hnone, ?_, new ++ old, ?_, ?_⟩
      · have hsame : m'.references = m.references + 1 := hrefs
        rw [hsame, hm.references, Nat.add_assoc]
      · have hsame : m'.hist = new ++ m.hist := hnew
        rw [hsame, hold, List.append_assoc]
      · rcases hpsw with hsame | ⟨pa, hpa, hwhich⟩
        · refine hcodes.imp (fun hcc => ?_) fun ⟨pa, hpa, hwhich⟩ =>
            ⟨pa, List.mem_append_right _ hpa, hwhich⟩
          rw [hsame]
          exact hcc
        · exact .inr ⟨pa, List.mem_append_left _ hpa, hwhich⟩
  | error _ m' =>
      obtain ⟨hr, hnone, hpsw, hba, hrefs, new, hnew⟩ := (dato_failedFrom hres).frame
      -- nothing is pending at a push
      have hr : m'.cpu.r = (pushed m traps bdata).cpu.r :=
        hr.trans (congrArg (·.r) (autoincUndo_none (pushed m traps bdata).cpu hm.autoinc))
      obtain ⟨old, hold, hcodes⟩ := hm.codes
      refine ⟨⟨n, Nat.lt_succ_self n, ⟨fun i hi => ?_, hnone, hrefs.trans hm.references,
        new ++ old, ?_, ?_⟩⟩, ?_⟩
      · rw [hr]
        exact hregs i hi
      · have hsame : m'.hist = new ++ m.hist := hnew
        rw [hsame, hold, List.append_assoc]
      · refine hcodes.imp (fun hcc => ?_) fun ⟨pa, hpa, hwhich⟩ =>
          ⟨pa, List.mem_append_right _ hpa, hwhich⟩
        rw [hpsw]
        exact hcc
      · rw [hr, hba]
        show Function.update m.cpu.r 6 (m.cpu.r 6 - 2) 6 = m.cpu.r 6 - 2
        rw [Function.update_self]

/-- The trap sequence after the vector was read. -/
def enter (bus : Bus) (inhov : Bool) (trappedPc trappedPsw : Word) (vector : Word × Word) :
    M Unit := do
  update spaceRestore
  modify fun m : Machine =>
    m.setPsw ((vector.2 &&& ~~~(0o30000 : Word)) ||| ((trappedPsw >>> 2) &&& 0o30000))
  push inhov
  outSp bus fun _ => trappedPsw
  push inhov
  outSp bus fun _ => trappedPc
  update fun cpu => cpu.setR 7 vector.1

theorem trapSequence_eq (bus : Bus) (inhov : Bool) (m : Machine) :
    trapSequence bus inhov m = (vectorRead bus >>= enter bus inhov (m.cpu.r 7) m.cpu.psw) m := by
  have hprogram : trapSequence bus inhov = (do
      let trappedPc ← look (·.r 7)
      let trappedPsw ← look (·.psw)
      let vector ← vectorRead bus
      enter bus inhov trappedPc trappedPsw vector) := by
    simp only [trapSequence, trapRest, vectorRead, enter, bind_assoc, pure_bind]
  rw [hprogram]
  rfl

/-- The machine at the first read of the vector. -/
def vectoring (m : Machine) : Machine :=
  m.mapCpu fun cpu => { (cpu.setDestRef false).spaceKernel with ba := cpu.r 10 }

theorem vectorRead_eq (bus : Bus) (m : Machine) : vectorRead bus m = (do
    dati bus false
    let newpc ← look (·.bdata)
    update fun cpu => { cpu with ba := cpu.r 10 + 2 }
    dati bus false
    let newpsw ← look (·.bdata)
    return (newpc, newpsw)) (vectoring m) := by
  simp only [vectorRead, vectorFetch, bind_assoc]
  rfl

theorem vectorRead_ok {bus : Bus} {m t : Machine} {vector : Word × Word}
    (h : vectorRead bus m = .ok vector t) :
    t.cpu.r = m.cpu.r ∧ t.cpu.autoinc = none ∧ t.cpu.psw = m.cpu.psw ∧
      t.references = m.references + 2 := by
  rw [vectorRead_eq] at h
  obtain ⟨_, u, hfirst, h⟩ := ok_of_bind_ok h
  obtain ⟨_, u', hsecond, h⟩ := ok_of_bind_ok (s := u.mapCpu ({ · with ba := u.cpu.r 10 + 2 })) h
  cases h
  obtain ⟨hr, -, hpsw, hrefs⟩ := dati_ok hfirst
  obtain ⟨hr', hnone, hpsw', hrefs'⟩ := dati_ok hsecond
  refine ⟨hr'.trans hr, hnone, hpsw'.trans hpsw, hrefs'.trans ?_⟩
  show u.references + 1 = _
  rw [hrefs]
  rfl

/-- The vector cannot be read. Only the first read can find something pending. -/
theorem vectorRead_error {bus : Bus} {m m' : Machine} (h : vectorRead bus m = .error () m') :
    m'.cpu.psw = m.cpu.psw ∧
      (m'.references = m.references ∧ m'.cpu.r = m.cpu.autoincUndo.r ∨
        m'.references = m.references + 1 ∧ m'.cpu.r = m.cpu.r) := by
  rw [vectorRead_eq] at h
  cases hfirst : dati bus false (vectoring m) with
  | error _ u =>
      rw [bind_error _ hfirst] at h
      cases h
      obtain ⟨hr, -, hpsw, -, hrefs, -⟩ := (dati_failedFrom hfirst).frame
      exact ⟨hpsw, .inl ⟨hrefs, hr.trans (autoincUndo_congr rfl rfl)⟩⟩
  | ok _ u =>
      rw [bind_ok _ hfirst] at h
      obtain ⟨hr, hnone, hpsw, hrefs⟩ := dati_ok hfirst
      let u₁ := u.mapCpu ({ · with ba := u.cpu.r 10 + 2 })
      have h : (dati bus false >>= fun _ => do
          let newpsw ← look (·.bdata)
          return (u.cpu.bdata, newpsw)) u₁ = .error () m' := h
      cases hsecond : dati bus false u₁ with
      | ok _ u' =>
          rw [bind_ok _ hsecond] at h
          cases h
      | error _ u' =>
          rw [bind_error _ hsecond] at h
          cases h
          obtain ⟨hr', -, hpsw', -, hrefs', -⟩ := (dati_failedFrom hsecond).frame
          have hr' : m'.cpu.r = u.cpu.r :=
            hr'.trans (congrArg (·.r) (autoincUndo_none u₁.cpu hnone))
          exact ⟨hpsw'.trans hpsw, .inr ⟨hrefs'.trans hrefs, hr'.trans hr⟩⟩

/-- A push of the trap sequence failed: nothing was taken back. -/
theorem enter_error {bus : Bus} {inhov : Bool} {trappedPc trappedPsw : Word}
    {vector : Word × Word} {t m' : Machine} (hnone : t.cpu.autoinc = none)
    (h : enter bus inhov trappedPc trappedPsw vector t = .error () m') :
    PushFailed t (CC.ofPsw vector.2) 2 m' := by
  have hpushes : Triple (Pushing t (CC.ofPsw vector.2) 0)
      ((push inhov >>= fun _ => outSp bus fun _ => trappedPsw) >>= fun _ =>
        (push inhov >>= fun _ => outSp bus fun _ => trappedPc) >>= fun _ =>
        update fun cpu => cpu.setR 7 vector.1)
      (fun _ _ => True) (PushFailed t (CC.ofPsw vector.2) 2) := by
    refine Triple.bind ((push_pushing bus inhov _).conseq (fun _ h => h) (fun _ _ h => h) ?_)
      fun _ => Triple.bind (push_pushing bus inhov _) fun _ => Triple.modify fun _ _ => trivial
    exact fun m ⟨⟨k, hk, hpushing⟩, hsp⟩ => ⟨⟨k, by omega, hpushing⟩, hsp⟩
  let newpsw := (vector.2 &&& ~~~(0o30000 : Word)) ||| ((trappedPsw >>> 2) &&& 0o30000)
  let s := (t.mapCpu spaceRestore).setPsw newpsw
  have hstart : Pushing t (CC.ofPsw vector.2) 0 s := by
    obtain ⟨hautoinc, hpsw⟩ := setPsw_frame t.cpu.spaceRestore newpsw
    refine ⟨fun i hi => setPsw_r _ newpsw hi, hautoinc.trans hnone, ?_, [], rfl, .inl ?_⟩
    · unfold Machine.references
      exact congrArg (· + _) (List.countP_cons_of_neg Bool.false_ne_true)
    · show CC.ofPsw (t.cpu.spaceRestore.setPsw newpsw).psw = _
      rw [hpsw]
      exact ofPsw_newpsw vector.2 trappedPsw
  have hrun := hpushes s hstart
  simp only [bind_assoc] at hrun
  have henter : enter bus inhov trappedPc trappedPsw vector t = (push inhov >>= fun _ =>
      (outSp bus fun _ => trappedPsw) >>= fun _ => push inhov >>= fun _ =>
      (outSp bus fun _ => trappedPc) >>= fun _ => update fun cpu => cpu.setR 7 vector.1) s := rfl
  rw [henter] at h
  rwa [h] at hrun

/-- What is pending when the trap sequence begins is taken back if the vector cannot be read. -/
theorem autoincUndo_iff (cpu : Kd11ea) :
    (∀ i : RegIdx, i.val < 8 → cpu.autoincUndo.r i = cpu.r i) ↔ ¬Pending cpu := by
  constructor
  · rintro h ⟨r, amount, hown, hr, hamount⟩
    have hsame := h r hr
    have hundo : cpu.autoincUndo.r = backOut (some (r, amount)) cpu.r := by
      unfold autoincUndo
      rw [hown]
      rfl
    rw [hundo, backOut_some, Function.update_self, BitVec.sub_eq_iff_eq_add] at hsame
    exact hamount (BitVec.self_eq_add_right.mp hsame)
  · intro h i hi
    unfold autoincUndo
    split
    case h_1 r amount hown =>
      show Function.update cpu.r r (cpu.r r - amount) i = cpu.r i
      by_cases hir : i = r
      · subst hir
        have hzero : amount = 0 := by
          by_contra hamount
          exact h ⟨i, amount, hown, hi, hamount⟩
        rw [hzero, Function.update_self]
        exact BitVec.sub_zero _
      · rw [Function.update_of_ne hir]
    case h_2 => rfl

theorem made_eq {m m' : Machine} {k : ℕ} (h : m'.references = m.references + k) :
    made m m' = k := by
  unfold made
  omega

theorem trapRegisters_iff {m m' : Machine} (hmade : made m m' < 2) :
    TrapRegisters m m' ↔ ∀ i : RegIdx, i.val < 8 → m'.cpu.r i = m.cpu.r i := by
  unfold TrapRegisters
  rw [if_pos hmade]
  constructor
  · rintro ⟨hother, hsp⟩ i hi
    by_cases h6 : i = 6
    · rw [h6, hsp]
    · exact hother i hi h6
  · exact fun h => ⟨fun i hi _ => h i hi, h 6 (by decide)⟩

theorem trap_effects_iff {bus : Bus} {inhov : Bool} {m m' : Machine}
    (h : trapSequence bus inhov m = .error () m') :
    TrapRegisters m m' ∧ TrapCodes bus inhov m m' ↔ ¬(made m m' = 0 ∧ Pending m.cpu) := by
  have hkept : ∀ s, busError m' inhov none = .inr s → s.machine.cpu.psw = m'.cpu.psw := by
    intro s hs
    unfold busError at hs
    split at hs
    · cases hs
    · cases hs
      rfl
  rw [trapSequence_eq] at h
  cases hvector : vectorRead bus m with
  | error _ u =>
      rw [bind_error _ hvector] at h
      cases h
      obtain ⟨hpsw, hcase⟩ := vectorRead_error hvector
      have hcodes : made m m' < 2 → TrapCodes bus inhov m m' := by
        intro hlt
        unfold TrapCodes
        rw [if_pos hlt]
        exact ⟨hkept, hpsw⟩
      rcases hcase with ⟨hrefs, hr⟩ | ⟨hrefs, hr⟩
      · have hmade : made m m' = 0 := made_eq hrefs
        have hlt : made m m' < 2 := by omega
        rw [and_iff_left (hcodes hlt), trapRegisters_iff hlt, hr, autoincUndo_iff, hmade]
        simp
      · have hmade : made m m' = 1 := made_eq hrefs
        have hlt : made m m' < 2 := by omega
        rw [and_iff_left (hcodes hlt), trapRegisters_iff hlt, hr, hmade]
        simp
  | ok vector t =>
      rw [bind_ok _ hvector] at h
      obtain ⟨hr, hnone, -, hrefs⟩ := vectorRead_ok hvector
      obtain ⟨⟨k, hk, hpushing⟩, hsp⟩ := enter_error hnone h
      have hmade : made m m' = k + 2 := by
        refine made_eq ?_
        rw [hpushing.references, hrefs]
        omega
      have hge : ¬made m m' < 2 := by omega
      refine iff_of_true ⟨⟨fun i _ h6 => ?_, ?_⟩, hkept, ?_⟩ fun hstale => by omega
      · rw [hpushing.regs i h6, hr]
      · rw [if_neg hge, hsp]
      · rw [if_neg hge]
        obtain ⟨new, hnew, hcodes⟩ := hpushing.codes
        exact ⟨vector.1, vector.2, t, new, hvector, hnew, hcodes⟩

/-! ## Every sequence -/

theorem error_of_bind_pure {α : Type} {x : M α} {m m' : Machine}
    (h : (x >>= fun _ => (pure () : M Unit)) m = .error () m') : x m = .error () m' := by
  cases hx : x m with
  | ok a t =>
      rw [bind_ok _ hx] at h
      cases h
  | error _ t =>
      rw [bind_error _ hx] at h
      cases h
      rfl

/-- Whatever reference of an opcode fetch, an instruction or a trap sequence fails, the
autoincrement taken back is the one which formed its address, and the condition codes are those
from before the instruction, respectively those the trap sequence had reached. The exceptions
are the push of `JSR (Rn)+`, at which the jump address is pending, and the first reference of a
trap sequence which began with an autoincrement pending. -/
theorem abort_effects_iff (bus : Bus) (q : Sequence) (m₀ m m' : Machine)
    (hstart : q.Starts bus m₀ m) (h : q.run bus m = .error () m') :
    OwnEffects bus m₀ m m' q ↔ ¬q.Stale m (made m m') := by
  cases q with
  | fetch =>
      exact iff_of_true ⟨fetch_effects (error_of_bind_pure h), codesRestored m₀ m'⟩ id
  | instruction ir =>
      have haborted := instruction_effects_iff hstart (error_of_bind_pure h)
      exact (and_iff_left (codesRestored m₀ m')).trans haborted
  | trap inhov => exact trap_effects_iff h

/-! ## Runs -/

/-- A program of one opcode at 1000, and nothing else. -/
def oneOpcode (ir : Word) : Bus := romBus fun addr => if addr = 0o1000 then some ir else none

/-- About to execute it, R1 pointing to 2000. -/
def oneOpcodeRegs (sp : Word) (i : RegIdx) : Word :=
  if i = 1 then 0o2000 else if i = 6 then sp else if i = 7 then 0o1000 else 0

/-- `TSTB (R1)+` of a byte which does not exist. -/
theorem abort_effects_tstb : ∃ m m',
    (Sequence.instruction 0o105721).Starts (oneOpcode 0o105721)
        (poweredUpWith (oneOpcodeRegs 0o500)) m ∧
      (Sequence.instruction 0o105721).run (oneOpcode 0o105721) m = .error () m' ∧
      OwnEffects (oneOpcode 0o105721) (poweredUpWith (oneOpcodeRegs 0o500)) m m'
        (.instruction 0o105721) := by
  obtain ⟨m, m', hstart, hrun⟩ : ∃ m m', (Sequence.instruction 0o105721).Starts
      (oneOpcode 0o105721) (poweredUpWith (oneOpcodeRegs 0o500)) m ∧
      (Sequence.instruction 0o105721).run (oneOpcode 0o105721) m = .error () m' :=
    ⟨_, _, rfl, rfl⟩
  have hiff := abort_effects_iff (oneOpcode 0o105721) (.instruction 0o105721) _ m m' hstart hrun
  exact ⟨m, m', hstart, hrun, hiff.mpr fun hstale => absurd hstale.1 (by decide)⟩

/-- `JSR PC,(R1)+` with no stack takes the jump address back. An interrupt after `JMP (R1)+`
takes it back, if its vector cannot be read. -/
theorem abort_takes_back_jump_address :
    (∃ m m', (Sequence.instruction 0o004721).Starts (oneOpcode 0o004721)
        (poweredUpWith (oneOpcodeRegs 0o500)) m ∧
      (Sequence.instruction 0o004721).run (oneOpcode 0o004721) m = .error () m' ∧
      ¬OwnEffects (oneOpcode 0o004721) (poweredUpWith (oneOpcodeRegs 0o500)) m m'
        (.instruction 0o004721)) ∧
    ∃ s m', stepStart (oneOpcode 0o000121)
        ((stepped (oneOpcode 0o000121) (poweredUpWith (oneOpcodeRegs 0o500))).setintr 0o300)
          = .inr s ∧
      (Sequence.trap s.inhov).run (oneOpcode 0o000121) s.machine = .error () m' ∧
      ¬OwnEffects (oneOpcode 0o000121) s.machine s.machine m' (.trap s.inhov) := by
  constructor
  · obtain ⟨m, m', hstart, hrun⟩ : ∃ m m', (Sequence.instruction 0o004721).Starts
        (oneOpcode 0o004721) (poweredUpWith (oneOpcodeRegs 0o500)) m ∧
        (Sequence.instruction 0o004721).run (oneOpcode 0o004721) m = .error () m' :=
      ⟨_, _, rfl, rfl⟩
    have hiff := instruction_effects_iff hstart (error_of_bind_pure hrun)
    exact ⟨m, m', hstart, hrun, fun heffects => hiff.mp heffects.1 ⟨by decide, by decide⟩⟩
  · obtain ⟨s, m', hstep, hrun, hmade, hpending⟩ : ∃ s m', stepStart (oneOpcode 0o000121)
        ((stepped (oneOpcode 0o000121) (poweredUpWith (oneOpcodeRegs 0o500))).setintr 0o300)
          = .inr s ∧
        (Sequence.trap s.inhov).run (oneOpcode 0o000121) s.machine = .error () m' ∧
        made s.machine m' = 0 ∧ s.machine.cpu.autoinc = some (1, 2) :=
      ⟨_, _, rfl, rfl, rfl, rfl⟩
    have hiff := trap_effects_iff hrun
    exact ⟨s, m', hstep, hrun, fun heffects =>
      hiff.mp heffects ⟨hmade, 1, 2, hpending, by decide, by decide⟩⟩

end QUniBone.Kd11ea
