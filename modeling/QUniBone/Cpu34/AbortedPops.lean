import QUniBone.Cpu34.AbortEffects
import Mathlib.Data.BitVec

/-!
# Pops of aborted instructions

`RTI`, `RTT`, `RTS`, `MARK` and `MTPI` pop, and the increment of SP is taken back if the read of
the pop itself fails. Whether the instruction as a whole leaves the stack as it was is another
matter: a pop which succeeded is not undone, and `RTS` and `MARK` change registers before they
read.

`pops_atomic_iff` says which failing references leave stack pointer and target as they were.
-/

namespace QUniBone

/-! ## Sums of register changes -/

/-- What a change adds to a register. -/
def Move.amountTo (i : RegIdx) : Move → Word
  | .add r amount _ => if r = i then amount else 0
  | _ => 0

/-- The change does not set the register to something else. -/
def Move.Adds (i : RegIdx) : Move → Prop
  | .add .. => True
  | .copy r _ _ => r ≠ i
  | .load r _ => r ≠ i

/-- What an autoincrement added to a register. -/
def ownTo (i : RegIdx) : Option (RegIdx × Word) → Word
  | some (r, amount) => if r = i then amount else 0
  | none => 0

/-- Changes which add up. -/
theorem applyMoves_apply {i : RegIdx} {moves : List Move} (h : ∀ mv ∈ moves, mv.Adds i)
    (regs : RegIdx → Word) :
    applyMoves regs moves i = regs i + (moves.map (Move.amountTo i)).sum := by
  induction moves generalizing regs with
  | nil => exact (BitVec.add_zero _).symm
  | cons mv moves ih =>
      have hrest := ih (fun mv' hmv' => h mv' (List.mem_cons_of_mem _ hmv')) (mv.apply regs)
      have happly : mv.apply regs i = regs i + mv.amountTo i := by
        have hmv := h mv List.mem_cons_self
        cases mv with
        | add r amount logged =>
            by_cases hr : r = i
            · subst hr
              simp [Move.apply, Move.amountTo]
            · simp [Move.apply, Move.amountTo, hr, Function.update_of_ne (Ne.symm hr)]
        | copy r src offset =>
            simp [Move.apply, Move.amountTo, Function.update_of_ne (Ne.symm hmv)]
        | load r w => simp [Move.apply, Move.amountTo, Function.update_of_ne (Ne.symm hmv)]
      show applyMoves (mv.apply regs) moves i = _
      rw [hrest, happly, List.map_cons, List.sum_cons, BitVec.add_assoc]

theorem backOut_apply (own : Option (RegIdx × Word)) (regs : RegIdx → Word) (i : RegIdx) :
    backOut own regs i = regs i - ownTo i own := by
  cases own with
  | none => exact (BitVec.sub_zero _).symm
  | some own =>
      obtain ⟨r, amount⟩ := own
      by_cases hr : r = i
      · subst hr
        simp [ownTo]
      · simp [ownTo, hr, Function.update_of_ne (Ne.symm hr)]

namespace Kd11ea

/-! ## Pops -/

/-- `RTI`, `RTT`, `RTS`, `MARK`, `MTPI`. -/
def Kind.pops : Kind → Bool
  | .rti => true
  | .rts => true
  | .mark => true
  | .mtpi => true
  | _ => false

/-- The register, or PC, a pop of the instruction loads. -/
def popTarget (ir : Word) : Option RegIdx :=
  match kindOf ir with
  | .rti => some 7
  | .rts => some (dstOf ir).reg
  | .mark => some 5
  | .mtpi => if (dstOf ir).addrMode = 0 then some (dstOf ir).reg else none
  | _ => none

/-- The machine in front of the trap sequence: `be:` was reached with `m'`. -/
def abortedMachine (m₀ m' : Machine) : Machine :=
  (busError m' false (some m₀.cpu.psw)).machine

/-- Stack pointer and target are as they were. -/
def Restored (ir : Word) (cpu cpu' : Kd11ea) : Prop :=
  cpu'.r 6 = cpu.r 6 ∧ ∀ t, popTarget ir = some t → cpu'.r t = cpu.r t

/-- The failing reference `k` leaves stack pointer and target alone: it is the first one of an
`RTI`, any of an `RTS`, the one of a `MARK` which finds SP at its argument words already, and
the first one of an `MTPI`, unless the address is formed by a decrement of SP. -/
def PopUndone (ir : Word) (cpu : Kd11ea) (k : ℕ) : Prop :=
  match kindOf ir with
  | .rti => k = 0
  | .rts => True
  | .mark => cpu.r 6 = cpu.r 7 + 2 * (ir &&& 0o77)
  | .mtpi => k = 0 ∨ (dstOf ir).reg = 6 ∧ (dstOf ir).addrMode &&& 6 = 4
  | _ => True

/-- It leaves PC alone, too. -/
def PcUndone (ir : Word) (cpu : Kd11ea) : Prop :=
  match kindOf ir with
  | .rts => cpu.r 7 = cpu.r (dstOf ir).reg + if (dstOf ir).reg = 6 then 2 else 0
  | .mark => cpu.r 7 = cpu.r 5
  | _ => True

theorem abortedMachine_r (m₀ m' : Machine) {i : RegIdx} (hi : i.val < 8) :
    (abortedMachine m₀ m').cpu.r i = m'.cpu.r i := by
  unfold abortedMachine busError
  split
  · rfl
  · exact setR_other _ _ (by rintro rfl; exact absurd hi (by decide))

theorem popTarget_lt {ir : Word} {t : RegIdx} (h : popTarget ir = some t) : t.val < 8 := by
  have hreg := reg_lt (dstOf ir)
  unfold popTarget at h
  split at h
  · cases h
    decide
  · cases h
    exact hreg
  · cases h
    decide
  · split at h
    · cases h
      exact hreg
    · cases h
  · cases h

/-- `Restored`, said of the general registers. -/
theorem restored_iff (ir : Word) (m₀ m m' : Machine) :
    Restored ir m.cpu (abortedMachine m₀ m').cpu ↔ general m'.cpu 6 = general m.cpu 6 ∧
      ∀ t, popTarget ir = some t → general m'.cpu t = general m.cpu t := by
  unfold Restored
  refine and_congr ?_ (forall_congr' fun t => imp_congr_right fun ht => ?_)
  · rw [abortedMachine_r m₀ m' (i := 6) (by decide)]
    rfl
  · have hlt := popTarget_lt ht
    rw [abortedMachine_r m₀ m' hlt, general_of_lt m'.cpu hlt, general_of_lt m.cpu hlt]

/-! ## The instructions -/

section

variable {ir pc : Word} {k : ℕ} {regs regs' : RegIdx → Word} {own : Option (RegIdx × Word)}

/-- `RTI`, `RTT`: the second pop finds the first one done, and PC loaded. -/
theorem rti_aborts (h : Aborts (Kind.planWith ir pc own .rti) k regs regs') :
    k = 0 ∧ regs' = regs ∨ k = 1 ∧ regs' 6 = regs 6 + 2 := by
  obtain ⟨s, hs, rfl⟩ := h
  match k, hs with
  | 0, hs =>
      cases hs
      refine .inl ⟨rfl, ?_⟩
      simp [Kind.planWith, Stage.pop, Stage.idle, Stage.move, applyMoves, Move.apply]
  | 1, hs =>
      cases hs
      refine .inr ⟨rfl, ?_⟩
      simp [Kind.planWith, Stage.pop, Stage.idle, Stage.move, applyMoves, Move.apply, movesOf]
  | k + 2, hs => cases hs

/-- `RTS`: PC has gone over to the return register. -/
theorem rts_aborts (h : Aborts (Kind.planWith ir pc own .rts) k regs regs') :
    (∀ i ≠ 7, regs' i = regs i) ∧
      regs' 7 = regs (dstOf ir).reg + if (dstOf ir).reg = 6 then 2 else 0 := by
  obtain ⟨s, hs, rfl⟩ := h
  match k, hs with
  | 0, hs =>
      cases hs
      refine ⟨fun i hi => ?_, ?_⟩
      · by_cases h6 : i = 6
        · simp [Kind.planWith, Stage.pop, Stage.idle, Stage.move, applyMoves, Move.apply, h6]
        · simp [Kind.planWith, Stage.pop, Stage.idle, Stage.move, applyMoves, Move.apply, h6, hi,
            Function.update_of_ne]
      · by_cases h6 : (dstOf ir).reg = 6
        · simp [Kind.planWith, Stage.pop, Stage.idle, Stage.move, applyMoves, Move.apply, h6]
        · simp [Kind.planWith, Stage.pop, Stage.idle, Stage.move, applyMoves, Move.apply, h6,
            Function.update_of_ne]
  | k + 1, hs => cases hs

/-- `MARK`: SP is at the argument words, and PC has gone over to R5. -/
theorem mark_aborts (h : Aborts (Kind.planWith ir pc own .mark) k regs regs') :
    regs' 6 = regs 7 + 2 * (ir &&& 0o77) ∧ regs' 7 = regs 5 ∧
      ∀ i : RegIdx, i.val < 6 → regs' i = regs i := by
  obtain ⟨s, hs, rfl⟩ := h
  match k, hs with
  | 0, hs =>
      cases hs
      refine ⟨?_, ?_, fun i hi => ?_⟩
      · simp [Kind.planWith, Stage.pop, Stage.idle, Stage.move, applyMoves, Move.apply]
      · simp [Kind.planWith, Stage.pop, Stage.idle, Stage.move, applyMoves, Move.apply]
      · have h6 : i ≠ 6 := by
          rintro rfl
          exact absurd hi (by decide)
        have h7 : i ≠ 7 := by
          rintro rfl
          exact absurd hi (by decide)
        simp [Kind.planWith, Stage.pop, Stage.idle, Stage.move, applyMoves, Move.apply,
          Function.update_of_ne, h6, h7]
  | k + 1, hs => cases hs

/-- The references of an operand, mode by mode. -/
theorem reading_modes (m : Word) (byte : Bool) : reading m byte = (
    if m.addrMode = 0 then []
    else if m.addrMode = 1 then [.idle]
    else if m.addrMode = 2 then
      [⟨[.add m.reg (autoincAmount m byte) true], some (m.reg, autoincAmount m byte)⟩]
    else if m.addrMode = 3 then
      [⟨[.add m.reg (autoincAmount m byte) true], some (m.reg, autoincAmount m byte)⟩, .idle]
    else if m.addrMode = 4 then [⟨[.add m.reg (-autoincAmount m byte) true], none⟩]
    else if m.addrMode = 5 then [⟨[.add m.reg (-autoincAmount m byte) true], none⟩, .idle]
    else if m.addrMode = 6 then [⟨[.add 7 2 false], none⟩, .idle]
    else [⟨[.add 7 2 false], none⟩, .idle, .idle]) := by
  have hmodes : ∀ mode : BitVec 3, mode = 0 ∨ mode = 1 ∨ mode = 2 ∨ mode = 3 ∨ mode = 4 ∨
      mode = 5 ∨ mode = 6 ∨ mode = 7 := by decide
  rcases hmodes m.addrMode with h | h | h | h | h | h | h | h <;>
    simp [reading, reference, forming, h]

/-- Only a decrement of SP makes up for a pop. -/
theorem reading_sp (m : Word) {j : ℕ} {s : Stage} (hs : (reading m false)[j]? = some s) :
    2 + ((movesOf ((reading m false).take (j + 1))).map (Move.amountTo 6)).sum
        - ownTo 6 s.own = 0 ↔ m.reg = 6 ∧ m.addrMode &&& 6 = 4 := by
  have hmodes : ∀ mode : BitVec 3, mode = 0 ∨ mode = 1 ∨ mode = 2 ∨ mode = 3 ∨ mode = 4 ∨
      mode = 5 ∨ mode = 6 ∨ mode = 7 := by decide
  rw [reading_modes, autoincAmount_word] at hs ⊢
  by_cases hreg : m.reg = 6 <;>
    rcases hmodes m.addrMode with h | h | h | h | h | h | h | h <;>
    rw [h] at hs ⊢ <;>
    rcases j with _ | _ | _ | j <;> cases hs <;>
    simp [hreg, movesOf, Move.amountTo, ownTo, Stage.idle]

/-- An operand changes registers by additions. -/
theorem reading_adds (m : Word) (byte : Bool) (i : RegIdx) :
    ∀ mv ∈ movesOf (reading m byte), mv.Adds i := by
  intro mv hmv
  unfold reading reference forming movesOf at hmv
  split_ifs at hmv <;> simp [Stage.idle] at hmv <;> subst hmv <;> trivial

theorem mem_movesOf_take {p : List Stage} {n : ℕ} {mv : Move} (h : mv ∈ movesOf (p.take n)) :
    mv ∈ movesOf p := by
  obtain ⟨s, hs, hmv⟩ := List.mem_flatMap.mp h
  exact List.mem_flatMap.mpr ⟨s, List.mem_of_mem_take hs, hmv⟩

/-- `MTPI`: past the pop, the increment of SP stands. -/
theorem mtpi_aborts (h : Aborts (Kind.planWith ir pc own .mtpi) k regs regs') :
    k = 0 ∧ regs' = regs ∨ 0 < k ∧ (dstOf ir).addrMode ≠ 0 ∧
      (regs' 6 = regs 6 ↔ (dstOf ir).reg = 6 ∧ (dstOf ir).addrMode &&& 6 = 4) := by
  obtain ⟨s, hs, rfl⟩ := h
  match k, hs with
  | 0, hs =>
      cases hs
      refine .inl ⟨rfl, ?_⟩
      simp [Kind.planWith, Stage.pop, Stage.idle, Stage.move, applyMoves, Move.apply]
  | j + 1, hs =>
      have hs : (reading (dstOf ir) false)[j]? = some s := hs
      refine .inr ⟨Nat.succ_pos j, fun h0 => ?_, ?_⟩
      · rw [reading, if_pos h0] at hs
        cases hs
      · rw [← reading_sp (dstOf ir) hs, backOut_apply]
        have hmoves : movesOf ((Kind.planWith ir pc own .mtpi).take (j + 1 + 1))
            = .add 6 2 false :: movesOf ((reading (dstOf ir) false).take (j + 1)) := rfl
        have hadds : ∀ mv ∈ Move.add 6 2 false :: movesOf ((reading (dstOf ir) false).take (j + 1)),
            mv.Adds 6 := by
          intro mv hmv
          rcases List.mem_cons.mp hmv with rfl | hmv
          · trivial
          · exact reading_adds _ _ _ mv (mem_movesOf_take hmv)
        rw [hmoves, applyMoves_apply hadds, List.map_cons, List.sum_cons]
        show _ = regs 6 ↔ (2 + _ : Word) - _ = 0#16
        rw [BitVec.sub_eq_iff_eq_add, BitVec.sub_eq_iff_eq_add, BitVec.add_right_inj,
          BitVec.zero_add]
        rfl

end

/-! ## Atomicity -/

/-- A failing reference of an instruction which pops leaves the stack pointer and the target of
the pop as they were exactly if `PopUndone`, and PC, where the instruction has one word, exactly
if `PcUndone` too. -/
theorem pops_atomic_iff (bus : Bus) (m₀ m m' : Machine) (ir : Word)
    (hfetch : fetch bus m₀ = .ok ir m) (hpops : (kindOf ir).pops = true)
    (h : execute bus ir m = .error () m') :
    (Restored ir m.cpu (abortedMachine m₀ m').cpu ↔ PopUndone ir m.cpu (made m m')) ∧
      (Restored ir m.cpu (abortedMachine m₀ m').cpu ∧
          (kindOf ir ≠ .mtpi → (abortedMachine m₀ m').cpu.r 7 = m.cpu.r 7) ↔
        PopUndone ir m.cpu (made m m') ∧ PcUndone ir m.cpu) := by
  obtain ⟨pc, k, haborted⟩ := execute_aborted (fetch_ir hfetch) (fetch_view hfetch).1 h
  have hmade : made m m' = k := made_eq haborted.references
  have haborts : Aborts ((kindOf ir).planWith ir pc (pendingOf ir)) k (general m.cpu)
      (general m'.cpu) := haborted.aborts
  have hpc : (abortedMachine m₀ m').cpu.r 7 = m.cpu.r 7 ↔
      general m'.cpu 7 = general m.cpu 7 := by
    rw [abortedMachine_r m₀ m' (i := 7) (by decide)]
    rfl
  rw [restored_iff, hpc, hmade]
  unfold popTarget PopUndone PcUndone
  cases hkind : kindOf ir with
  | rti =>
      rw [hkind] at haborts
      rcases rti_aborts haborts with ⟨rfl, hregs⟩ | ⟨rfl, hsp⟩
      · simp [hregs]
      · simp [hsp]
  | rts =>
      rw [hkind] at haborts
      obtain ⟨hother, hpc⟩ := rts_aborts haborts
      have hrestored : general m'.cpu 6 = general m.cpu 6 ∧
          ∀ t, some (dstOf ir).reg = some t → general m'.cpu t = general m.cpu t := by
        refine ⟨hother 6 (by decide), ?_⟩
        rintro t ⟨⟩
        by_cases h7 : (dstOf ir).reg = 7
        · rw [h7, hpc, h7, if_neg (by decide)]
          exact BitVec.add_zero _
        · exact hother _ h7
      refine ⟨iff_true_intro hrestored, ?_⟩
      rw [hpc, general_of_lt m.cpu (reg_lt _)]
      constructor
      · exact fun h => ⟨trivial, (h.2 (by decide)).symm⟩
      · exact fun h => ⟨hrestored, fun _ => h.2.symm⟩
  | mark =>
      rw [hkind] at haborts
      obtain ⟨hsp, hpc, hother⟩ := mark_aborts haborts
      have hrestored : (general m'.cpu 6 = general m.cpu 6 ∧
          ∀ t, some 5 = some t → general m'.cpu t = general m.cpu t) ↔
            m.cpu.r 6 = m.cpu.r 7 + 2 * (ir &&& 0o77) := by
        rw [hsp]
        refine ⟨fun h => h.1.symm, fun h => ⟨h.symm, ?_⟩⟩
        rintro t ⟨⟩
        exact hother 5 (by decide)
      refine ⟨hrestored, ?_⟩
      rw [hpc]
      constructor
      · exact fun h => ⟨hrestored.mp h.1, (h.2 (by decide)).symm⟩
      · exact fun h => ⟨hrestored.mpr h.1, fun _ => h.2.symm⟩
  | mtpi =>
      rw [hkind] at haborts
      rcases mtpi_aborts haborts with ⟨rfl, hregs⟩ | ⟨hk, hmode, hsp⟩
      · simp [hregs]
      · have hk0 : ¬k = 0 := by omega
        have hmode : ¬(dstOf ir).addrMode = 0#3 := hmode
        simp [hsp, hmode, hk0]
  | _ =>
      rw [hkind] at hpops
      cases hpops

/-- `RTS R5` with no stack. -/
theorem pops_atomic_rts : ∃ m m',
    fetch (oneOpcode 0o205) (poweredUpWith (oneOpcodeRegs 0o500)) = .ok 0o205 m ∧
      execute (oneOpcode 0o205) 0o205 m = .error () m' ∧
      Restored 0o205 m.cpu (abortedMachine (poweredUpWith (oneOpcodeRegs 0o500)) m').cpu := by
  obtain ⟨m, m', hfetch, h⟩ : ∃ m m',
      fetch (oneOpcode 0o205) (poweredUpWith (oneOpcodeRegs 0o500)) = .ok 0o205 m ∧
        execute (oneOpcode 0o205) 0o205 m = .error () m' := ⟨_, _, rfl, rfl⟩
  have hiff := pops_atomic_iff (oneOpcode 0o205) _ m m' 0o205 hfetch (by decide) h
  exact ⟨m, m', hfetch, h, hiff.1.mpr trivial⟩

/-- An `RTI` at 1000, and the top word of a stack whose second word does not exist. -/
def halfStack : Bus :=
  romBus fun addr => if addr = 0o1000 then some 2 else if addr = 0o500 then some 0o2000 else none

/-- That `RTI` keeps the first pop. -/
theorem rti_keeps_first_pop : ∃ m m',
    fetch halfStack (poweredUpWith (oneOpcodeRegs 0o500)) = .ok 2 m ∧
      (kindOf 2).pops = true ∧ execute halfStack 2 m = .error () m' ∧
      ¬Restored 2 m.cpu (abortedMachine (poweredUpWith (oneOpcodeRegs 0o500)) m').cpu := by
  obtain ⟨m, m', hfetch, h, hsp, hsp'⟩ : ∃ m m',
      fetch halfStack (poweredUpWith (oneOpcodeRegs 0o500)) = .ok 2 m ∧
        execute halfStack 2 m = .error () m' ∧ m.cpu.r 6 = 0o500 ∧
        (abortedMachine (poweredUpWith (oneOpcodeRegs 0o500)) m').cpu.r 6 = 0o502 :=
    ⟨_, _, rfl, rfl, rfl, rfl⟩
  refine ⟨m, m', hfetch, by decide, h, fun hrestored => ?_⟩
  have hsame := hrestored.1
  rw [hsp, hsp'] at hsame
  exact absurd hsame (by decide)

end Kd11ea

end QUniBone
