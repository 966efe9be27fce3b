import QUniBone.Cpu20.Priority

/-!
# The KA11: what its programs do

`Runs` for one program of `step()` after the other: the priority told stays that of the PSW, the
references are counted, and an exit leaves a failed reference behind.

* `instruction_runs`: one instruction, from its fetch.
* `trapPushes_runs`, `trapVector_runs`: the trap sequence.
-/

namespace QUniBone.Ka11

open Prog

theorem seq {α β : Type} {m n : ℕ} {x : M α} {f : α → M β} (hx : Runs m x)
    (hf : ∀ a, Runs n (f a)) : Runs (m + n) (x >>= f) := Leaves.bind graded_kept hx hf

theorem cond {n : ℕ} {c : Prop} [Decidable c] {x : M Unit} (hx : Runs n x) : Runs n (when c x) :=
  Leaves.when graded_kept hx

theorem weaken {α : Type} {m n : ℕ} {x : M α} (hmn : m.ble n = true) (hx : Runs m x) :
    Runs n x := Leaves.weaken graded_kept hmn hx

variable (bus : Bus)

/-! ## Operands -/

theorem stackLimit_runs (f : Ka11 → Word) : Runs 0 (update fun cpu => stackLimit cpu (f cpu)) := by
  refine update_runs fun cpu => ?_
  unfold stackLimit
  split <;> rfl

theorem alu_runs (op : Ka11 → CC → Alu.Result) : Runs 0 (alu op) :=
  seq (look_runs _) fun _ => seq (setCC_runs _) fun _ => pure_runs _

theorem addrInc_runs (r : RegIdx) (ai : Word) : Runs 0 (addrInc r ai) :=
  seq (update_runs fun _ => by rfl) fun _ => update_runs fun _ => by rfl

theorem addrDec_runs (r : RegIdx) (ai : Word) : Runs 0 (addrDec r ai) :=
  seq (update_runs fun _ => by rfl) fun _ => seq (cond (stackLimit_runs _)) fun _ =>
    update_runs fun _ => by rfl

theorem addrIndex_runs (r : RegIdx) : Runs 1 (addrIndex bus r) :=
  weaken rfl <| seq (update_runs fun _ => by rfl) fun _ => seq (update_runs fun _ => by rfl) fun _ =>
    seq (dati_runs bus false) fun _ => update_runs fun _ => by rfl

theorem addrDeferred_runs : Runs 1 (addrDeferred bus) :=
  seq (dati_runs bus false) fun _ => update_runs fun _ => by rfl

theorem addrSwitch_runs (m : Word) (byte : Bool) : Runs 1 (addrSwitch bus m byte) :=
  Leaves.ite (weaken rfl (addrInc_runs _ _)) <|
    Leaves.ite (weaken rfl (addrDec_runs _ _)) (addrIndex_runs bus _)

theorem addrop_runs (m : Word) (byte : Bool) : Runs 2 (addrop bus m byte) :=
  Leaves.ite (weaken rfl (update_runs fun _ => by rfl)) <|
    seq (addrSwitch_runs bus m byte) fun _ => cond (addrDeferred_runs bus)

theorem fetchop_runs (t : RegIdx) (m : Word) (byte : Bool) : Runs 1 (fetchop bus t m byte) := by
  have hword : Runs 1 (fetchWord bus t m byte) :=
    Leaves.ite (weaken rfl (update_runs fun _ => by rfl)) <|
      seq (dati_runs bus byte) fun _ => update_runs fun _ => by rfl
  exact seq hword fun _ => cond (update_runs fun _ => by rfl)

/-- A register is taken without a reference. -/
theorem fetchop_register_runs (t : RegIdx) (m : Word) (byte : Bool) (h : m.addrMode = 0) :
    Runs 0 (fetchop bus t m byte) := by
  have hword : Runs 0 (fetchWord bus t m byte) := by
    unfold fetchWord
    rw [if_pos h]
    exact update_runs fun _ => by rfl
  exact seq hword fun _ => cond (update_runs fun _ => by rfl)

theorem readop_runs (t : RegIdx) (m : Word) (byte : Bool) : Runs 3 (readop bus t m byte) :=
  seq (addrop_runs bus m byte) fun _ => fetchop_runs bus t m byte

theorem writedest_runs (v : Word) (byte : Bool) : Runs 1 (writedest bus v byte) := by
  have hmemory : Runs 1 (writeMemory bus v byte) :=
    weaken rfl <| seq (update_runs fun _ => by rfl) fun _ => dato_runs bus byte
  exact weaken rfl <| seq (look_runs _) fun ir =>
    Leaves.ite (weaken rfl (update_runs fun _ => by rfl)) hmemory

theorem register_runs (t : RegIdx) (m : Word) (byte : Bool) :
    Runs 0 (when (m.addrMode = 0) (fetchop bus t m byte)) := by
  unfold when
  split
  case isTrue h => exact fetchop_register_runs bus t m byte h
  case isFalse => exact pure_runs ()

theorem rdB_runs (byte : Bool) (ir : Word) : Runs 6 (rdB bus byte ir) :=
  seq (cond (readop_runs bus _ _ byte)) fun _ => seq (cond (readop_runs bus _ _ byte)) fun _ =>
    seq (register_runs bus _ _ byte) fun _ => register_runs bus _ _ byte

theorem rdU_runs (byte : Bool) (ir : Word) : Runs 3 (rdU bus byte ir) :=
  seq (cond (readop_runs bus _ _ byte)) fun _ => seq (register_runs bus _ _ byte) fun _ =>
    update_runs fun _ => by rfl

theorem push_runs (inhov : Bool) : Runs 0 (push inhov) :=
  seq (update_runs fun _ => by rfl) fun _ => cond (stackLimit_runs _)

theorem outSp_runs (d : Ka11 → Word) : Runs 1 (outSp bus d) :=
  weaken rfl <| seq (update_runs fun _ => by rfl) fun _ => dato_runs bus false

theorem pushWord_runs (inhov : Bool) (d : Ka11 → Word) : Runs 1 (pushWord bus inhov d) :=
  weaken rfl <| seq (push_runs inhov) fun _ => outSp_runs bus d

theorem popWord_runs : Runs 1 (popWord bus) :=
  weaken rfl <| seq (update_runs fun _ => by rfl) fun _ => seq (update_runs fun _ => by rfl) fun _ =>
    seq (dati_runs bus false) fun _ => look_runs _

/-! ## Groups of instructions -/

/-- Each program of a group makes at most seven references. -/
def Group (x : Option (M Next)) : Prop := ∀ p, x = some p → Runs 7 p

theorem group_none : Group none := fun _ h => by cases h

theorem group_some {n : ℕ} {p : M Next} (hn : n.ble 7 = true) (h : Runs n p) :
    Group (some p) := by
  intro q hq
  cases hq
  exact weaken hn h

theorem group_ite {c : Prop} [Decidable c] {x y : Option (M Next)} (hx : Group x)
    (hy : Group y) : Group (if c then x else y) := by
  split
  · exact hx
  · exact hy

theorem group_orElse {x y : Option (M Next)} (hx : Group x) (hy : Group y) :
    Group (x <|> y) := by
  cases x with
  | none => exact hy
  | some p => exact hx

theorem group_jump (next : Next) : Group (some (pure next)) := group_some rfl (pure_runs next)

theorem storeWhole_runs (byte : Bool) (dst v : Word) : Runs 1 (storeWhole bus byte dst v) :=
  Leaves.ite (weaken rfl (update_runs fun _ => by rfl)) (writedest_runs bus v byte)

theorem mov_runs (byte : Bool) (ir : Word) : Runs 7 (mov bus byte ir) :=
  seq (rdB_runs bus byte ir) fun _ => seq (alu_runs _) fun _ => seq (look_runs _) fun _ =>
    seq (storeWhole_runs bus _ _ _) fun _ => pure_runs _

theorem binaryOp_runs (byte : Bool) (ir : Word) (op : Word → Word → CC → Alu.Result)
    (write : Bool) : Runs 7 (binaryOp bus byte ir op write) :=
  seq (rdB_runs bus byte ir) fun _ => seq (alu_runs _) fun _ =>
    seq (cond (writedest_runs bus _ byte)) fun _ => pure_runs _

theorem binary_group (ir : Word) : Group (binary bus ir) := by
  have hop (byte : Bool) (op : Word → Word → CC → Alu.Result) (write : Bool) :
      Group (some (binaryOp bus byte ir op write)) :=
    group_some rfl (binaryOp_runs bus byte ir op write)
  exact group_ite (group_some rfl (mov_runs bus _ _)) <| group_ite (hop _ _ _) <|
    group_ite (hop _ _ _) <| group_ite (hop _ _ _) <| group_ite (hop _ _ _) <|
    group_ite (hop _ _ _) <| group_ite (hop _ _ _) <| group_ite (group_jump _) <|
    group_ite (group_jump _) group_none

theorem unaryOp_runs (byte : Bool) (ir : Word) (op : Word → CC → Alu.Result) (write : Bool) :
    Runs 4 (unaryOp bus byte ir op write) :=
  seq (rdU_runs bus byte ir) fun _ => seq (alu_runs _) fun _ =>
    seq (cond (writedest_runs bus _ byte)) fun _ => pure_runs _

theorem unary_group (ir : Word) : Group (unary bus ir) := by
  have hop (byte : Bool) (op : Word → CC → Alu.Result) (write : Bool) :
      Group (some (unaryOp bus byte ir op write)) :=
    group_some rfl (unaryOp_runs bus byte ir op write)
  exact group_ite (hop _ _ _) <| group_ite (hop _ _ _) <| group_ite (hop _ _ _) <|
    group_ite (hop _ _ _) <| group_ite (hop _ _ _) <| group_ite (hop _ _ _) <|
    group_ite (hop _ _ _) <| group_ite (hop _ _ _) <| group_ite (hop _ _ _) <|
    group_ite (hop _ _ _) <| group_ite (hop _ _ _) <| group_ite (hop _ _ _) <|
    group_ite (group_jump _) group_none

theorem jsr_runs (ir : Word) : Runs 3 (jsr bus ir) :=
  Leaves.ite (weaken rfl (pure_runs _)) <| weaken rfl <|
    seq (addrop_runs bus _ _) fun _ => seq (update_runs fun _ => by rfl) fun _ =>
    seq (pushWord_runs bus _ _) fun _ => seq (update_runs fun _ => by rfl) fun _ =>
    seq (update_runs fun _ => by rfl) fun _ => pure_runs _

theorem calls_group (ir : Word) : Group (calls bus ir) :=
  group_ite (group_some rfl (jsr_runs bus ir)) <| group_ite (group_jump _) <|
    group_ite (group_jump _) group_none

theorem branch_runs (ir : Word) : Runs 0 (branch ir) := by
  refine seq (update_runs fun cpu => ?_) fun _ => pure_runs _
  split <;> rfl

theorem jmp_runs (ir : Word) : Runs 2 (jmp bus ir) :=
  Leaves.ite (weaken rfl (pure_runs _)) <| seq (addrop_runs bus _ _) fun _ =>
    seq (update_runs fun _ => by rfl) fun _ => pure_runs _

theorem rts_runs (ir : Word) : Runs 1 (rts bus ir) :=
  weaken rfl <| seq (update_runs fun _ => by rfl) fun _ => seq (update_runs fun _ => by rfl) fun _ =>
    seq (update_runs fun _ => by rfl) fun _ => seq (dati_runs bus _) fun _ =>
    seq (update_runs fun _ => by rfl) fun _ => pure_runs _

theorem ccop_runs (ir : Word) (value : Bool) : Runs 0 (ccop ir value) :=
  seq (setCC_runs _) fun _ => pure_runs _

theorem swab_runs (ir : Word) : Runs 4 (swab bus ir) :=
  seq (rdU_runs bus _ ir) fun _ => seq (alu_runs _) fun _ =>
    seq (writedest_runs bus _ _) fun _ => pure_runs _

theorem misc_group (ir : Word) : Group (misc bus ir) :=
  group_ite (group_some rfl (jmp_runs bus ir)) <|
    group_ite (group_ite (group_some rfl (rts_runs bus ir)) <|
      group_ite (group_jump _) (group_some rfl (ccop_runs ir _))) <|
    group_ite (group_some rfl (swab_runs bus ir)) group_none

theorem rti_runs : Runs 2 (rti bus) := by
  -- the PSW is loaded and told in one
  have hpsw (b : Word) : Runs 0 (do modify (·.loadPsw b); modify (·.levelchange) : M Unit) :=
    ⟨fun s => Kept.loadPsw s b, fun _ _ _ h => by cases h⟩
  have hprogram : rti bus = (do
      let pc ← popWord bus
      update fun cpu => cpu.setR 7 pc
      let b ← popWord bus
      (do modify (·.loadPsw b); modify (·.levelchange))
      svc) := rfl
  rw [hprogram]
  exact weaken rfl <| seq (popWord_runs bus) fun _ => seq (update_runs fun _ => by rfl) fun _ =>
    seq (popWord_runs bus) fun b => seq (hpsw b) fun _ => pure_runs _

theorem resetOp_runs : Runs 0 resetOp := by
  have hinit : Runs 0 (modify (·.onBus .busInit) : M Unit) :=
    Leaves.modify fun s => Kept.onBus s (e := .busInit) fun _ h => by cases h
  exact seq (update_runs fun _ => by rfl) fun _ => seq hinit fun _ => pure_runs _

theorem state_runs (state : CpuState) :
    Runs 0 (do update ({ · with state := state }); return .ret : M Next) :=
  seq (update_runs fun _ => by rfl) fun _ => pure_runs _

theorem operate_group (ir : Word) : Group (operate bus ir) :=
  group_ite (group_some rfl (state_runs .halted)) <|
    group_ite (group_some rfl (state_runs .waiting)) <|
    group_ite (group_some rfl (rti_runs bus)) <| group_ite (group_jump _) <|
    group_ite (group_jump _) <| group_ite (group_some rfl resetOp_runs) group_none

/-- Every opcode, the reserved ones included -/
theorem execute_runs (ir : Word) : Runs 7 (execute bus ir) := by
  have hbranches : Group (branches ir) := group_ite (group_some rfl (branch_runs ir)) group_none
  have hgroup := group_orElse (binary_group bus ir) <| group_orElse (unary_group bus ir) <|
    group_orElse (calls_group bus ir) <| group_orElse hbranches <|
    group_orElse (misc_group bus ir) (operate_group bus ir)
  unfold execute
  cases hx : (binary bus ir <|> unary bus ir <|> calls bus ir <|> branches ir <|> misc bus ir
      <|> operate bus ir) with
  | none => exact weaken rfl (pure_runs _)
  | some p => exact hgroup p hx

theorem fetch_runs : Runs 1 (fetch bus) :=
  weaken rfl <| seq (update_runs fun _ => by rfl) fun _ => seq (dati_runs bus false) fun _ =>
    seq (update_runs fun _ => by rfl) fun _ => seq (update_runs fun _ => by rfl) fun _ => look_runs _

/-- One instruction, with its fetch, makes at most eight references. -/
theorem instruction_runs : Runs 8 (instruction bus) :=
  seq (fetch_runs bus) fun ir => execute_runs bus ir

/-! ## The trap sequence -/

theorem trapPushes_runs (inhov : Bool) : Runs 2 (trapPushes bus inhov) :=
  seq (pushWord_runs bus inhov _) fun _ => pushWord_runs bus inhov _

theorem trapVector_runs : Runs 2 (trapVector bus) := by
  have hpsw : Runs 0 (do modify (fun m => m.loadPsw m.cpu.bdata); modify (·.levelchange) : M Unit) :=
    ⟨fun s => Kept.loadPsw s _, fun _ _ _ h => by cases h⟩
  exact weaken rfl <| seq (update_runs fun _ => by rfl) fun _ => seq (dati_runs bus false) fun _ =>
    seq (update_runs fun _ => by rfl) fun _ => seq (update_runs fun _ => by rfl) fun _ =>
    seq (dati_runs bus false) fun _ => hpsw

theorem trapSequence_runs (inhov : Bool) : Runs 4 (trapSequence bus inhov) :=
  seq (trapPushes_runs bus inhov) fun _ => trapVector_runs bus

end QUniBone.Ka11
