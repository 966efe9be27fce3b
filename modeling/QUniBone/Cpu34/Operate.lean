import QUniBone.Cpu.ConditionCodes
import QUniBone.Cpu34.CoherentRuns
import QUniBone.Cpu34.Cycles

/-!
# The KD11-EA: exact operands

What the instructions of the double and the single operand group do, said on operands of the
width they name: `Op.exactly` makes the references of the instruction and, in between, works
on the operands themselves. `instruction_exactly` is the equation with `step()`.

* `operandValue`: the operand in a register, or on its lane of the bus.
* `storeExact`: the result back into a register, or on its lane of the bus.
* `execute_program`: the `case` of each opcode.
-/

namespace QUniBone.Kd11ea

open Prog Alu

/-! ## Operands and results -/

/-- What an operand fetch has found: the low bits of a register, or the addressed half of the
word on the bus. -/
def operandValue (byte : Bool) (m : Word) (cpu : Kd11ea) : BitVec (width byte) :=
  let w :=
    if m.addrMode = 0 then cpu.r m.reg
    else if byte && cpu.ba.odd then cpu.bdata >>> 8
    else cpu.bdata
  w.setWidth (width byte)

/-- A register whose low bits are replaced. -/
def replaceLow {byte : Bool} (old : Word) (v : BitVec (width byte)) : Word :=
  ((old >>> width byte) <<< width byte) ||| v.setWidth 16

/-- The data of a write cycle: a byte stands in the half of the word that `ba` addresses. -/
def busData {byte : Bool} (ba : Word) (v : BitVec (width byte)) : Word :=
  if ba.odd then sx v <<< 8 else sx v

variable (bus : Bus)

/-- Make the references of the operands, giving their values. -/
def operands (op : Op) (byte : Bool) (ir : Word) :
    M (BitVec (width byte) × BitVec (width byte)) :=
  if op.double then do
    operand bus 8 (srcOf ir) byte
    let src ← look (operandValue byte (srcOf ir))
    operand bus 9 (dstOf ir) byte
    let dst ← look (operandValue byte (dstOf ir))
    return (src, dst)
  else do
    rdU bus byte ir
    let dst ← look (operandValue byte (dstOf ir))
    return (dst, dst)

/-- Store a result: `MOVB` extends it over a whole register, the other byte instructions leave
the high byte alone. -/
def storeExact (op : Op) (byte : Bool) (dst : Word) (v : BitVec (width byte)) : M Unit :=
  if op = .mov ∧ dst.addrMode = 0 then update fun cpu => cpu.setR dst.reg (sx v)
  else do
    update (·.setDestRef true)
    if dst.addrMode = 0 then update fun cpu => cpu.setR dst.reg (replaceLow (cpu.r dst.reg) v)
    else do
      update fun cpu => { cpu with bdata := busData cpu.ba v }
      dato bus byte

/-- After the operands: the operation, its condition codes and the write. -/
def conclude (op : Op) (byte : Bool) (ir : Word)
    (v : BitVec (width byte) × BitVec (width byte)) : M Next := do
  let result ← look fun cpu => op.exact v.1 v.2 (CC.ofPsw cpu.psw)
  setCC fun _ => result.2
  when op.stores (storeExact bus op byte (dstOf ir) result.1)
  svc

/-- An instruction on exact operands. -/
def exactly (op : Op) (byte : Bool) (ir : Word) : M Next := do
  let v ← operands bus op byte ir
  conclude bus op byte ir v

/-! ## Decoding -/

/-- The opcode bits of an instruction. -/
def opMask (op : Op) : Word := if op.double then 0o170000 else 0o177700

/-- The opcode of the word form. -/
def wordOpcode : Op → Word
  | .mov => 0o010000
  | .cmp => 0o020000
  | .bit => 0o030000
  | .bic => 0o040000
  | .bis => 0o050000
  | .add => 0o060000
  | .sub => 0o160000
  | .clr => 0o005000
  | .com => 0o005100
  | .inc => 0o005200
  | .dec => 0o005300
  | .neg => 0o005400
  | .adc => 0o005500
  | .sbc => 0o005600
  | .tst => 0o005700
  | .ror => 0o006000
  | .rol => 0o006100
  | .asr => 0o006200
  | .asl => 0o006300
  | .swab => 0o000300

/-- The instruction word `ir` is an `op`, of byte or word form. -/
def Decodes (ir : Word) (op : Op) (byte : Bool) : Prop :=
  (op.hasByte = false → byte = false) ∧
    ir &&& opMask op = wordOpcode op ||| (if byte then 0o100000 else 0)

/-- The `case` of an operation. -/
def program (op : Op) (byte : Bool) (ir : Word) : M Next :=
  if op = .mov then mov bus byte ir
  else if op.double then binaryOp bus byte ir (op.code byte) op.stores
  else unaryOp bus byte ir (op.code byte) op.stores

/-- A test that looks at opcode bits only. -/
theorem and_of_and {ir mask code : Word} (h : ir &&& mask = code) (m : Word)
    (hm : mask &&& m = m) : ir &&& m = code &&& m := by
  rw [← h, BitVec.and_assoc, hm]

theorem byteOf_eq (ir : Word) : byteOf ir = (ir &&& 0o100000 != 0) :=
  (Word.and_twoPow_bne ir (by decide : 15 < 16)).symm

theorem execute_of_binary {ir : Word} {p : M Next} (h : binary bus ir = some p) :
    execute bus ir = p := by
  rw [execute, h]
  rfl

theorem execute_of_unary {ir : Word} {p : M Next} (hb : binary bus ir = none)
    (he : eis bus ir = none) (h : unary bus ir = some p) : execute bus ir = p := by
  rw [execute, hb, he, h]
  rfl

theorem execute_double {ir : Word} {op : Op} {byte : Bool} (hop : op.double = true)
    (hform : op.hasByte = false → byte = false)
    (hcode : ir &&& 0o170000 = wordOpcode op ||| (if byte then 0o100000 else 0)) :
    execute bus ir = program bus op byte ir := by
  have hbyte := byteOf_eq ir
  rw [and_of_and hcode _ (by decide)] at hbyte
  apply execute_of_binary
  cases op <;> cases byte <;>
    first | exact absurd hop (by decide) | exact absurd (hform rfl) (by decide) | skip
  all_goals
    simp [wordOpcode] at hcode hbyte
    simp [binary, hcode, hbyte, program, Op.double, Op.stores, Op.code]

theorem execute_swab {ir : Word} (hcode : ir &&& 0o177700 = 0o000300) :
    execute bus ir = program bus .swab false ir := by
  have hall := and_of_and hcode
  have hbyte : byteOf ir = false := by
    rw [byteOf_eq, hall _ (by decide)]
    rfl
  have hbinary : binary bus ir = none := by
    simp only [binary, hall 0o170000 (by decide)]
    simp
  have heis : eis bus ir = none := by
    simp only [eis, hall 0o170000 (by decide)]
    simp
  have hunary : unary bus ir = none := by
    simp only [unary, hall 0o007700 (by decide)]
    simp
  have hcalls : calls bus ir = none := by
    simp only [calls, hall 0o107400 (by decide)]
    simp
  have hbranches : branches ir = none := by
    simp only [branches, hall 0o103400 (by decide)]
    simp
  have hmisc : misc bus ir = some (program bus .swab false ir) := by
    simp only [misc, hall 0o177300 (by decide), swab, hbyte]
    simp [program, Op.double, Op.stores, Op.code]
  rw [execute, hbinary, heis, hunary, hcalls, hbranches, hmisc]
  rfl

theorem execute_single {ir : Word} {op : Op} {byte : Bool} (hop : op.double = false)
    (hswab : op ≠ .swab)
    (hcode : ir &&& 0o177700 = wordOpcode op ||| (if byte then 0o100000 else 0)) :
    execute bus ir = program bus op byte ir := by
  have hall := and_of_and hcode
  have hbyte : byteOf ir = byte := by
    rw [byteOf_eq, hall _ (by decide)]
    cases op <;> cases byte <;> first | exact absurd hop (by decide) | rfl
  have hhigh : ir &&& 0o170000 = if byte then 0o100000 else 0 := by
    rw [hall _ (by decide)]
    cases op <;> cases byte <;> first | exact absurd hop (by decide) | rfl
  have hlow : ir &&& 0o007700 = wordOpcode op := by
    rw [hall _ (by decide)]
    cases op <;> cases byte <;>
      first | exact absurd hop (by decide) | exact absurd rfl hswab | rfl
  have hbinary : binary bus ir = none := by
    simp only [binary, hhigh]
    cases byte <;> simp
  have heis : eis bus ir = none := by
    simp only [eis, hhigh]
    cases byte <;> simp
  refine execute_of_unary bus hbinary heis ?_
  simp only [unary, hlow, hbyte]
  cases op <;> first | exact absurd hop (by decide) | exact absurd rfl hswab | skip
  all_goals simp [wordOpcode, program, Op.double, Op.stores, Op.code]

theorem execute_program {ir : Word} {op : Op} {byte : Bool} (h : Decodes ir op byte) :
    execute bus ir = program bus op byte ir := by
  obtain ⟨hform, hcode⟩ := h
  rw [opMask] at hcode
  by_cases hop : op.double
  · rw [if_pos hop] at hcode
    exact execute_double bus hop hform hcode
  · rw [if_neg hop] at hcode
    by_cases hswab : op = .swab
    · subst hswab
      cases hform rfl
      exact execute_swab bus hcode
    · exact execute_single bus (by simpa using hop) hswab hcode

/-! ## Operand fetch -/

/-- The instruction word, and for the second operand the first one, as they were. -/
def Waiting (t : RegIdx) (ir v : Word) (m : Machine) : Prop :=
  m.cpu.ir = ir ∧ (t = 9 → m.cpu.r 8 = v)

section

variable {bus : Bus} {t : RegIdx} {ir v : Word}

theorem reg_ne (m : Word) (ht : 7 < t) : m.reg ≠ t := by
  intro h
  have hle : (m.reg : ℕ) ≤ 7 := by
    show (m &&& 7).toNat ≤ 7
    rw [BitVec.toNat_and]
    exact Nat.and_le_right
  rw [h] at hle
  exact absurd hle (Nat.not_le.mpr ht)

theorem update_waiting {f : Kd11ea → Kd11ea} (hir : ∀ cpu, (f cpu).ir = cpu.ir)
    (hr : ∀ cpu, t = 9 → (f cpu).r 8 = cpu.r 8) :
    Triple (Waiting t ir v) (update f) (fun _ => Waiting t ir v) fun _ => True :=
  Triple.modify fun m h => ⟨(hir m.cpu).trans h.1, fun ht => (hr m.cpu ht).trans (h.2 ht)⟩

theorem dati_waiting (byte : Bool) :
    Triple (Waiting t ir v) (dati bus byte) (fun _ => Waiting t ir v) fun _ => True := by
  intro m h
  -- a cycle that succeeds changes `bdata` and the MMU
  have hcpu := translated_cpu m .read
  have hspec := dati_spec bus byte m
  generalize dati bus byte m = result at hspec ⊢
  cases hspec with
  | odd => trivial
  | aborted => trivial
  | internal =>
      show (m.translated .read).cpu.ir = ir ∧ (t = 9 → (m.translated .read).cpu.r 8 = v)
      rw [hcpu]
      exact h
  | answered =>
      show (m.translated .read).cpu.ir = ir ∧ (t = 9 → (m.translated .read).cpu.r 8 = v)
      rw [hcpu]
      exact h
  | timeout => trivial

theorem setR_other (cpu : Kd11ea) {i j : RegIdx} (w : Word) (h : j ≠ i) :
    (cpu.setR i w).r j = cpu.r j :=
  Function.update_of_ne h _ _

theorem logRegister_waiting (r : RegIdx) (amount : Word) :
    Triple (Waiting t ir v) (logRegister r amount) (fun _ => Waiting t ir v) fun _ => True :=
  Triple.modify fun _ h => h

theorem stackLimit_waiting (f : Kd11ea → Word) :
    Triple (Waiting t ir v) (update fun cpu => stackLimit cpu (f cpu))
      (fun _ => Waiting t ir v) fun _ => True := by
  have hsame : ∀ cpu sp, (stackLimit cpu sp).ir = cpu.ir ∧ (stackLimit cpu sp).r = cpu.r := by
    intro cpu sp
    unfold stackLimit
    split <;> exact ⟨rfl, rfl⟩
  exact update_waiting (fun cpu => (hsame cpu _).1) fun cpu _ => congrFun (hsame cpu _).2 8

theorem when_waiting {c : Prop} [Decidable c] {x : M Unit}
    (h : Triple (Waiting t ir v) x (fun _ => Waiting t ir v) fun _ => True) :
    Triple (Waiting t ir v) (when c x) (fun _ => Waiting t ir v) fun _ => True := by
  unfold when
  split
  · exact h
  · exact fun m hm => hm

theorem look_waiting {α : Type} (f : Kd11ea → α) :
    Triple (Waiting t ir v) (look f) (fun _ => Waiting t ir v) fun _ => True :=
  fun _ h => h

theorem addrForm_waiting (m : Word) (byte : Bool) :
    Triple (Waiting t ir v) (addrForm bus m byte) (fun _ => Waiting t ir v) fun _ => True := by
  have hreg : ∀ (r : RegIdx) (w : Kd11ea → Word), (8 : RegIdx) ≠ r → ∀ cpu : Kd11ea, t = 9 →
      (cpu.setR r (w cpu)).r 8 = cpu.r 8 := fun r w hr cpu _ => setR_other cpu (w cpu) hr
  have hm := (reg_ne m (t := 8) (by decide)).symm
  have hinc : ∀ ai, Triple (Waiting t ir v) (addrInc m.reg ai) (fun _ => Waiting t ir v)
      fun _ => True := by
    intro ai
    exact Triple.bind (update_waiting (fun _ => rfl) fun _ _ => rfl) fun _ =>
      Triple.bind (update_waiting (fun _ => rfl) (hreg _ _ hm)) fun _ =>
      Triple.bind (update_waiting (fun _ => rfl) fun _ _ => rfl) fun _ => logRegister_waiting _ _
  have hdec : ∀ ai, Triple (Waiting t ir v) (addrDec m.reg ai) (fun _ => Waiting t ir v)
      fun _ => True := by
    intro ai
    exact Triple.bind (update_waiting (fun _ => rfl) fun _ _ => rfl) fun _ =>
      Triple.bind (when_waiting (stackLimit_waiting _)) fun _ =>
      Triple.bind (update_waiting (fun _ => rfl) (hreg _ _ hm)) fun _ => logRegister_waiting _ _
  have hindex : Triple (Waiting t ir v) (addrIndex bus m.reg) (fun _ => Waiting t ir v)
      fun _ => True := by
    exact Triple.bind (update_waiting (fun _ => rfl) fun _ _ => rfl) fun _ =>
      Triple.bind (update_waiting (fun _ => rfl) (hreg 7 _ (by decide))) fun _ =>
      Triple.bind (dati_waiting false) fun _ => update_waiting (fun _ => rfl) fun _ _ => rfl
  have hdeferred : Triple (Waiting t ir v) (addrDeferred bus) (fun _ => Waiting t ir v)
      fun _ => True :=
    Triple.bind (dati_waiting false) fun _ => update_waiting (fun _ => rfl) fun _ _ => rfl
  unfold addrForm addrSwitch
  split
  · exact update_waiting (fun _ => rfl) fun _ _ => rfl
  · refine Triple.bind (Q := fun _ => Waiting t ir v) ?_ fun _ => when_waiting hdeferred
    split
    · exact hinc _
    · split
      · exact hdec _
      · exact hindex

/-- Fetching an operand keeps the instruction word, and fetching the second one the first. -/
theorem operand_waiting (bus : Bus) (m : Word) (byte : Bool) :
    Triple (Waiting t ir v) (operand bus t m byte) (fun _ => Waiting t ir v) fun _ => True := by
  have hfield : ∀ f : Kd11ea → Kd11ea, (∀ cpu, (f cpu).ir = cpu.ir) → (∀ cpu, (f cpu).r = cpu.r) →
      Triple (Waiting t ir v) (update f) (fun _ => Waiting t ir v) fun _ => True :=
    fun f hir hr => update_waiting hir fun cpu _ => congrFun (hr cpu) 8
  have hset : ∀ w : Kd11ea → Word, Triple (Waiting t ir v)
      (update fun cpu => cpu.setR t (w cpu)) (fun _ => Waiting t ir v) fun _ => True :=
    fun w => update_waiting (fun _ => rfl) fun cpu h9 => setR_other cpu _ (by rw [h9]; decide)
  have hfetch : Triple (Waiting t ir v) (fetchop bus t m byte) (fun _ => Waiting t ir v)
      fun _ => True := by
    refine Triple.bind (Q := fun _ => Waiting t ir v) ?_ fun _ => when_waiting (hset _)
    unfold fetchWord
    split
    · exact hset _
    · exact Triple.bind (dati_waiting byte) fun _ => hset _
  unfold operand
  split
  · exact hfetch
  · refine Triple.bind (hfield _ (fun _ => rfl) fun _ => rfl) fun _ =>
      Triple.bind ?_ fun _ => hfetch
    exact Triple.bind (hfield _ (fun _ => rfl) fun _ => rfl) fun _ =>
      Triple.bind (look_waiting _) fun _ =>
      Triple.bind (hfield _ (fun _ => rfl) fun _ => rfl) fun _ =>
      Triple.bind (addrForm_waiting m byte) fun _ => hfield _ (fun _ => rfl) fun _ => rfl

theorem operandValue_setR (byte : Bool) {m : Word} (ht : 7 < t) (cpu : Kd11ea) (w : Word) :
    operandValue byte m (cpu.setR t w) = operandValue byte m cpu := by
  have hreg : (cpu.setR t w).r m.reg = cpu.r m.reg := setR_other cpu w (reg_ne m ht)
  unfold operandValue
  rw [hreg]
  rfl

/-- The operand register after the fetch, before `by` extends the sign. -/
theorem fetchWord_value (ht : 7 < t) (m : Word) (byte : Bool) :
    Triple (fun _ => True) (fetchWord bus t m byte)
      (fun _ s => (s.cpu.r t).setWidth (width byte) = operandValue byte m s.cpu)
      fun _ => True := by
  have hset : ∀ (w : Kd11ea → Word),
      (∀ cpu, (w cpu).setWidth (width byte) = operandValue byte m cpu) →
      Triple (fun _ => True) (update fun cpu => cpu.setR t (w cpu))
        (fun _ s => (s.cpu.r t).setWidth (width byte) = operandValue byte m s.cpu)
        fun _ => True := by
    intro w hw
    refine Triple.modify fun s _ => ?_
    show (Function.update s.cpu.r t (w s.cpu) t).setWidth (width byte)
      = operandValue byte m (s.cpu.setR t (w s.cpu))
    rw [Function.update_self, operandValue_setR byte ht, hw]
  unfold fetchWord
  split
  case isTrue hmode => exact hset _ fun cpu => by rw [operandValue, if_pos hmode]
  case isFalse hmode =>
    refine Triple.bind (Q := fun _ _ => True) ?_ fun _ =>
      hset _ fun cpu => by rw [operandValue, if_neg hmode]
    intro s _
    cases dati bus byte s <;> trivial

/-- The operand register holds the operand, sign extended. -/
theorem fetchop_value (ht : 7 < t) (m : Word) (byte : Bool) :
    Triple (fun _ => True) (fetchop bus t m byte)
      (fun _ s => s.cpu.r t = sx (operandValue byte m s.cpu)) fun _ => True := by
  refine Triple.bind (fetchWord_value ht m byte) fun _ s h => ?_
  cases byte with
  | false =>
      show s.cpu.r t = sx (operandValue false m s.cpu)
      rw [← h]
      simp [sx, width]
  | true =>
      show Function.update s.cpu.r t (s.cpu.r t).sxt t
        = sx (operandValue true m (s.cpu.setR t (s.cpu.r t).sxt))
      rw [Function.update_self, operandValue_setR true ht, ← h]
      rfl

theorem operand_value (bus : Bus) (ht : 7 < t) (m : Word) (byte : Bool) :
    Triple (fun _ => True) (operand bus t m byte)
      (fun _ s => s.cpu.r t = sx (operandValue byte m s.cpu)) fun _ => True := by
  unfold operand
  split
  · exact fetchop_value ht m byte
  · refine Triple.bind (Q := fun _ _ => True) (Triple.modify fun _ _ => trivial) fun _ =>
      Triple.bind (Q := fun _ _ => True) ?_ fun _ => fetchop_value ht m byte
    intro s _
    cases addrop bus m byte s <;> trivial

end

/-! ## Storing the result -/

section

variable {byte : Bool}

theorem setmask_eq (old : Word) (v : BitVec (width byte)) :
    (if byte then Word.setmask old (sx v) 0o377 else sx v) = replaceLow old v := by
  cases byte with
  | false => simp [sx, replaceLow, width]
  | true =>
      rw [if_pos rfl]
      apply BitVec.eq_of_getLsbD_eq
      intro i hi
      have hmask : (0o377 : Word).getLsbD i = decide (i < 8) := by
        interval_cases i <;> rfl
      rw [Word.getLsbD_setmask, hmask, replaceLow, BitVec.getLsbD_or, BitVec.getLsbD_shiftLeft,
        BitVec.getLsbD_ushiftRight, BitVec.getLsbD_setWidth, getLsbD_sx]
      by_cases hlow : i < 8
      · simp [hlow, hi]
      · have hhigh : v.getLsbD i = false := BitVec.getLsbD_of_ge v i (Nat.le_of_not_lt hlow)
        simp [hlow, hhigh, hi, show 8 + (i - 8) = i by omega]

theorem addrMode_dstOf (ir : Word) : (dstOf ir).addrMode = ir.addrMode := by
  apply BitVec.eq_of_getLsbD_eq
  intro i hi
  have hmask : (0o77 : Word).getLsbD (3 + i) = true := by
    interval_cases i <;> rfl
  simp only [Word.addrMode, dstOf, BitVec.getLsbD_extractLsb', BitVec.getLsbD_and, hmask,
    Bool.and_true]

theorem reg_dstOf (ir : Word) : (dstOf ir).reg = ir.reg := by
  have h : dstOf ir &&& 7 = ir &&& 7 := by
    rw [dstOf, BitVec.and_assoc]
    rfl
  exact Fin.ext (show (dstOf ir &&& 7).toNat = (ir &&& 7).toNat from congrArg BitVec.toNat h)

variable {bus : Bus} {op : Op}

/-- `writedest` of a sign extended result. -/
theorem writedest_exact {m : Machine} (v : BitVec (width byte))
    (hop : ¬ (op = .mov ∧ (dstOf m.cpu.ir).addrMode = 0)) :
    writedest bus (sx v) byte m = storeExact bus op byte (dstOf m.cpu.ir) v m := by
  unfold writedest storeExact
  rw [if_neg hop, addrMode_dstOf, reg_dstOf]
  show (if m.cpu.ir.addrMode = 0 then writeRegister m.cpu.ir.reg (sx v) byte
      else writeMemory bus (sx v) byte) (m.mapCpu (·.setDestRef true))
    = (if m.cpu.ir.addrMode = 0
      then update fun cpu => cpu.setR m.cpu.ir.reg (replaceLow (cpu.r m.cpu.ir.reg) v)
      else _) (m.mapCpu (·.setDestRef true))
  split
  · unfold writeRegister
    simp only [setmask_eq]
  · rfl

/-- `MOV` stores the operand register as a whole. -/
theorem storeWhole_exact (bus : Bus) {m : Machine} (v : BitVec (width byte)) :
    storeWhole bus byte (dstOf m.cpu.ir) (sx v) m
      = storeExact bus .mov byte (dstOf m.cpu.ir) v m := by
  unfold storeWhole
  split
  case isTrue hmode => rw [storeExact, if_pos ⟨rfl, hmode⟩]
  case isFalse hmode => exact writedest_exact v fun h => hmode h.2

end

/-! ## The instructions -/

section

variable {bus : Bus} {op : Op} {byte : Bool}

/-- The operand fetch of an instruction. -/
def fetchOperands (bus : Bus) (op : Op) (byte : Bool) (ir : Word) : M Unit :=
  if op.double then rdB bus byte ir else rdU bus byte ir

/-- The machine after the operand fetch that found `v`. -/
structure Fetched (op : Op) (v : BitVec (width byte) × BitVec (width byte)) (ir : Word)
    (m : Machine) : Prop where
  src : m.cpu.r 8 = sx v.1
  dst : m.cpu.r 9 = sx v.2
  instruction : m.cpu.ir = ir
  single : op.double = false → v.1 = v.2

/-- How the fetch that gives the operands goes, and the one that leaves them in registers. -/
inductive Operands (op : Op) (ir : Word) :
    EStateM.Result Unit Machine (BitVec (width byte) × BitVec (width byte)) →
      EStateM.Result Unit Machine Unit → Prop
  | found {v : BitVec (width byte) × BitVec (width byte)} {m : Machine} :
      Fetched op v ir m → Operands op ir (.ok v m) (.ok () m)
  | failed (m : Machine) : Operands op ir (.error () m) (.error () m)

theorem rdB_operands (hop : op.double = true) (m : Machine) :
    Operands op m.cpu.ir (operands bus op byte m.cpu.ir m) (rdB bus byte m.cpu.ir m) := by
  unfold operands rdB
  rw [if_pos hop]
  have hw8 := operand_waiting bus (t := 8) (v := 0) (srcOf m.cpu.ir) byte m
    ⟨rfl, fun h => absurd h (by decide)⟩
  have hv8 := operand_value bus (t := 8) (by decide) (srcOf m.cpu.ir) byte m trivial
  cases h8 : operand bus 8 (srcOf m.cpu.ir) byte m with
  | error _ s =>
      rw [bind_error _ h8, bind_error _ h8]
      exact .failed s
  | ok _ s =>
      rw [h8] at hw8 hv8
      rw [bind_ok _ h8, bind_ok _ h8]
      have hw9 := operand_waiting bus (t := 9) (dstOf m.cpu.ir) byte s
        ⟨hw8.1, fun _ => hv8⟩
      have hv9 := operand_value bus (t := 9) (by decide) (dstOf m.cpu.ir) byte s trivial
      cases h9 : operand bus 9 (dstOf m.cpu.ir) byte s with
      | error _ t =>
          show Operands op m.cpu.ir ((operand bus 9 (dstOf m.cpu.ir) byte >>= _) s) _
          rw [bind_error _ h9]
          exact .failed t
      | ok _ t =>
          rw [h9] at hw9 hv9
          show Operands op m.cpu.ir ((operand bus 9 (dstOf m.cpu.ir) byte >>= _) s) _
          rw [bind_ok _ h9]
          exact .found ⟨hw9.2 rfl, hv9, hw9.1, fun h => absurd hop (by simp [h])⟩

/-- So does `RD_U`, for both operand registers. -/
theorem rdU_operands (hop : op.double = false) (m : Machine) :
    Operands op m.cpu.ir (operands bus op byte m.cpu.ir m) (rdU bus byte m.cpu.ir m) := by
  have hw9 := operand_waiting bus (t := 9) (dstOf m.cpu.ir) byte m ⟨rfl, fun _ => rfl⟩
  have hv9 := operand_value bus (t := 9) (by decide) (dstOf m.cpu.ir) byte m trivial
  unfold operands rdU
  rw [if_neg (by simp [hop])]
  simp only [bind_assoc]
  cases h9 : operand bus 9 (dstOf m.cpu.ir) byte m with
  | error _ t =>
      rw [bind_error _ h9, bind_error _ h9]
      exact .failed t
  | ok _ t =>
      rw [h9] at hw9 hv9
      rw [bind_ok _ h9, bind_ok _ h9]
      have hvalue := operandValue_setR byte (m := dstOf m.cpu.ir) (t := 8) (by decide)
        t.cpu (t.cpu.r 9)
      refine .found (v := (operandValue byte (dstOf m.cpu.ir) (t.cpu.setR 8 (t.cpu.r 9)), _))
        ⟨?_, ?_, hw9.1, fun _ => rfl⟩
      · show t.cpu.r 9 = sx (operandValue byte (dstOf m.cpu.ir) (t.cpu.setR 8 (t.cpu.r 9)))
        rw [hvalue]
        exact hv9
      · show t.cpu.r 9 = sx (operandValue byte (dstOf m.cpu.ir) (t.cpu.setR 8 (t.cpu.r 9)))
        rw [hvalue]
        exact hv9

theorem fetchOperands_operands (bus : Bus) (op : Op) (byte : Bool) (m : Machine) :
    Operands op m.cpu.ir (operands bus op byte m.cpu.ir m)
      (fetchOperands bus op byte m.cpu.ir m) := by
  unfold fetchOperands
  split
  case isTrue hop => exact rdB_operands hop m
  case isFalse hop => exact rdU_operands (by simpa using hop) m

/-- A machine with new condition codes. -/
def coded (m : Machine) (cc : CC) : Machine :=
  m.mapCpu fun cpu => { cpu with psw := cc.store cpu.psw }

/-- The operation of the source, the operands being in the operand registers. -/
theorem alu_exact {m : Machine} {ir : Word} {v : BitVec (width byte) × BitVec (width byte)}
    (hbyte : op.hasByte = false → byte = false) (h : Fetched op v ir m) :
    ∃ b : UInt, Word.ofUInt b = sx (op.exact v.1 v.2 (CC.ofPsw m.cpu.psw)).1 ∧
      alu (op.code byte) m = .ok b (coded m (op.exact v.1 v.2 (CC.ofPsw m.cpu.psw)).2) := by
  have hcode := code_agrees op byte v.1 v.2 (CC.ofPsw m.cpu.psw) hbyte h.single
  rw [← h.src, ← h.dst] at hcode
  refine ⟨_, hcode.1, ?_⟩
  rw [← hcode.2]
  rfl

/-- The operations other than `MOV` have their result written by `writedest`. -/
theorem write_conclude {m : Machine} {ir : Word} {v : BitVec (width byte) × BitVec (width byte)}
    (hmov : op ≠ .mov) (hbyte : op.hasByte = false → byte = false) (h : Fetched op v ir m) :
    (alu (op.code byte) >>= fun b => when op.stores (wr bus b byte) >>= fun _ => svc) m
      = conclude bus op byte ir v m := by
  obtain ⟨b, hb, halu⟩ := alu_exact hbyte h
  rw [bind_ok _ halu]
  show (when op.stores (wr bus b byte) >>= fun _ => svc) (coded m _)
    = (when op.stores (storeExact bus op byte (dstOf ir) _) >>= fun _ => svc) (coded m _)
  have hwrite : ∀ cc, wr bus b byte (coded m cc)
      = storeExact bus op byte (dstOf ir) (op.exact v.1 v.2 (CC.ofPsw m.cpu.psw)).1
        (coded m cc) := by
    intro cc
    have hir : (coded m cc).cpu.ir = ir := h.instruction
    rw [wr, hb, ← hir]
    exact writedest_exact _ fun hop => hmov hop.1
  unfold when
  by_cases hstores : op.stores
  · rw [if_pos hstores, if_pos hstores, bind_apply, bind_apply, hwrite]
  · rw [if_neg hstores, if_neg hstores]

/-- `MOV` stores the operand register itself. -/
theorem mov_conclude {m : Machine} {ir : Word} {v : BitVec (width byte) × BitVec (width byte)}
    (h : Fetched .mov v ir m) :
    (alu (Op.mov.code byte) >>= fun _ => look (·.r 8) >>= fun sr =>
        storeWhole bus byte (dstOf ir) sr >>= fun _ => svc) m
      = conclude bus .mov byte ir v m := by
  obtain ⟨b, -, halu⟩ := alu_exact (fun h => by cases h) h
  have hstore := storeWhole_exact bus (m := coded m (Op.mov.exact v.1 v.2
    (CC.ofPsw m.cpu.psw)).2) v.1
  have hir : ∀ cc, (coded m cc).cpu.ir = ir := fun _ => h.instruction
  rw [hir, ← h.src] at hstore
  rw [bind_ok _ halu]
  show (storeWhole bus byte (dstOf ir) (m.cpu.r 8) >>= fun _ => svc) (coded m _)
    = (storeExact bus .mov byte (dstOf ir) v.1 >>= fun _ => svc) (coded m _)
  rw [bind_apply, bind_apply, hstore]

theorem program_exactly (hbyte : op.hasByte = false → byte = false) (m : Machine) :
    program bus op byte m.cpu.ir m = exactly bus op byte m.cpu.ir m := by
  have hfetch := fetchOperands_operands bus op byte m
  have hprogram : program bus op byte m.cpu.ir
      = fetchOperands bus op byte m.cpu.ir >>= fun _ =>
        if op = .mov then
          alu (Op.mov.code byte) >>= fun _ => look (·.r 8) >>= fun sr =>
            storeWhole bus byte (dstOf m.cpu.ir) sr >>= fun _ => svc
        else alu (op.code byte) >>= fun b => when op.stores (wr bus b byte) >>= fun _ => svc := by
    unfold program fetchOperands
    by_cases hmov : op = .mov
    · subst hmov
      rfl
    · rw [if_neg hmov]
      simp only [hmov, if_false]
      split <;> rfl
  rw [hprogram, exactly, bind_apply, bind_apply]
  generalize operands bus op byte m.cpu.ir m = found at hfetch ⊢
  generalize fetchOperands bus op byte m.cpu.ir m = fetched at hfetch ⊢
  cases hfetch with
  | failed t => rfl
  | found h =>
      by_cases hmov : op = .mov
      · subst hmov
        exact mov_conclude h
      · simp only [hmov, if_false]
        exact write_conclude hmov hbyte h

end

theorem fetch_ir {bus : Bus} {m m' : Machine} {ir : Word} (h : fetch bus m = .ok ir m') :
    m'.cpu.ir = ir := by
  have hend : ∀ {x : M Unit} {s : Machine},
      (x >>= fun _ => look (·.ir)) s = .ok ir m' → m'.cpu.ir = ir := by
    intro x s hx
    obtain ⟨_, t, -, hlook⟩ := ok_of_bind_ok hx
    cases hlook
    rfl
  unfold fetch at h
  simp only [← bind_assoc] at h
  exact hend h

/-- An instruction of the two groups, from its fetch: what `step()` does is what is said of the
exact operands. -/
theorem instruction_exactly {bus : Bus} {m m' : Machine} {ir : Word} {op : Op} {byte : Bool}
    (hfetch : fetch bus m = .ok ir m') (hcode : Decodes ir op byte) :
    instruction bus m = exactly bus op byte ir m' := by
  rw [instruction, bind_ok _ hfetch, execute_program bus hcode, ← fetch_ir hfetch]
  exact program_exactly hcode.1 m'

/-- `INCB R0`. -/
theorem instruction_exactly_incb :
    ∃ m', fetch (userVectorBus fun _ => some 0o105200) created.powerReset = .ok 0o105200 m' ∧
      instruction (userVectorBus fun _ => some 0o105200) created.powerReset
        = exactly (userVectorBus fun _ => some 0o105200) .inc true 0o105200 m' :=
  ⟨_, rfl, instruction_exactly rfl ⟨by decide, by decide⟩⟩

end QUniBone.Kd11ea
