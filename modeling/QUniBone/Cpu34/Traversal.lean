import QUniBone.Cpu34.Step

/-!
# What every instruction preserves

An instruction of the KD11-EA is made of a dozen primitives. `InstrRel bus R` lists what a
graded two-state relation `R` has to say about each of them, the grade being the number of
references a program may make; `instruction_within` then says the same of any instruction.

Registers the relations are not about are blanked by `Machine.quiet`, so that a step between
machines with equal `quiet` part costs one obligation for all programs.
-/

namespace QUniBone

open Prog

/-- The machine with its general and scratch registers blanked. -/
def Machine.quiet (m : Machine) : Machine :=
  m.mapCpu fun cpu => { cpu with
    r := fun _ => 0
    b := 0
    ba := 0
    bdata := 0
    ir := 0
    traps := ⟨false, false⟩
    autoinc := none
    mmu := { cpu.mmu with destRef := false } }

/-- The machine with the registers of the trap sequence blanked: what it changes by itself,
its references, its pushes and the new PSW apart. -/
def Machine.calm (m : Machine) : Machine :=
  m.mapCpu fun cpu => { cpu with
    r := fun _ => 0
    ba := 0
    bdata := 0
    mmu := { cpu.mmu with destRef := false } }

/-- The machine with all blanked that is changed between instructions and trap sequences. -/
def Machine.outer (m : Machine) : Machine :=
  { m with
    bus := []
    cpu := { m.cpu with
      r := fun _ => 0
      traps := ⟨false, false⟩
      state := .halted
      be := 0
      externalIntr := false
      externalIntrvec := 0 } }

namespace Kd11ea

/-- A relation every primitive of the instructions keeps to. -/
structure InstrRel (bus : Bus) (R : ℕ → Machine → Machine → Prop) : Prop extends Graded R where
  quiet : ∀ s t : Machine, s.quiet = t.quiet → R 0 s t
  codes : ∀ (s : Machine) (cc : CC),
    R 0 s (s.mapCpu fun cpu => { cpu with psw := cc.store cpu.psw })
  dati : ∀ byte, Within R 1 (dati bus byte)
  dato : ∀ byte, Within R 1 (dato bus byte)
  prevDati : Within R 1 (inPrevSpace (Kd11ea.dati bus false))
  prevDato : Within R 1 (inPrevSpace (Kd11ea.dato bus false))
  log : ∀ r amount, Within R 0 (logRegister r amount)
  started : ∀ s : Machine, R 0 s
    ((s.mapCpu fun cpu => { cpu with mmu := cpu.mmu.instructionStart }).note .started)
  fetched : ∀ s : Machine, R 0 s
    ((s.mapCpu fun cpu => { cpu with mmu := cpu.mmu.instructionFetched (cpu.r 7) }).note
      (.fetched (s.cpu.r 7)))
  mtps : ∀ s : Machine, R 0 s (s.setPsw (mtpsPsw s.cpu))
  rti : ∀ (s : Machine) (b : Word), R 0 s (s.setPsw (rtiPsw s.cpu b))
  prevRegister : ∀ (s : Machine) (df : RegIdx) (b : Word),
    R 0 s (s.mapCpu (setPrevRegister df b))
  halt : ∀ s : Machine, s.cpu.isKernel = true → R 0 s (s.mapCpu ({ · with state := .halted }))
  wait : ∀ s : Machine, R 0 s (s.mapCpu ({ · with state := .waiting }))
  reset : ∀ s : Machine, s.cpu.isKernel = true → R 0 s (s.reset.onBus .busInit)

namespace InstrRel

variable {bus : Bus} {R : ℕ → Machine → Machine → Prop} {α : Type}

/-! ## Scratch registers -/

theorem update (hR : InstrRel bus R) {f : Kd11ea → Kd11ea}
    (hf : ∀ s : Machine, s.quiet = (s.mapCpu f).quiet) : Within R 0 (update f) :=
  fun s => hR.quiet s _ (hf s)

theorem look (hR : InstrRel bus R) (f : Kd11ea → α) : Within R 0 (look f) :=
  fun s => hR.refl s

theorem stackLimit (hR : InstrRel bus R) (f : Kd11ea → Word) :
    Within R 0 (Kd11ea.update fun cpu => stackLimit cpu (f cpu)) := by
  refine hR.update fun s => ?_
  unfold Kd11ea.stackLimit Machine.quiet Machine.mapCpu
  dsimp only
  split <;> rfl

theorem setCC (hR : InstrRel bus R) (f : Kd11ea → CC) : Within R 0 (setCC f) :=
  fun s => hR.codes s (f s.cpu)

theorem alu (hR : InstrRel bus R) (op : Word → Word → CC → Alu.Result) :
    Within R 0 (alu op) :=
  hR.bind (hR.look _) fun _ => hR.bind (hR.setCC _) fun _ => hR.pure _

/-! ## Operands -/

theorem addrInc (hR : InstrRel bus R) (r : RegIdx) (ai : Word) : Within R 0 (addrInc r ai) := by
  unfold Kd11ea.addrInc
  exact hR.bind (hR.update fun _ => rfl) fun _ => hR.bind (hR.update fun _ => rfl) fun _ =>
    hR.bind (hR.update fun _ => rfl) fun _ => hR.log r ai

theorem addrDec (hR : InstrRel bus R) (r : RegIdx) (ai : Word) : Within R 0 (addrDec r ai) := by
  unfold Kd11ea.addrDec
  exact hR.bind (hR.update fun _ => rfl) fun _ => hR.bind (hR.when (hR.stackLimit _)) fun _ =>
    hR.bind (hR.update fun _ => rfl) fun _ => hR.log r (-ai)

theorem addrIndex (hR : InstrRel bus R) (r : RegIdx) : Within R 1 (addrIndex bus r) := by
  unfold Kd11ea.addrIndex
  exact hR.weaken rfl <| hR.bind (hR.update fun _ => rfl) fun _ =>
    hR.bind (hR.update fun _ => rfl) fun _ =>
    hR.bind (hR.dati false) fun _ => hR.update fun _ => rfl

theorem addrDeferred (hR : InstrRel bus R) : Within R 1 (addrDeferred bus) := by
  unfold Kd11ea.addrDeferred
  exact hR.bind (hR.dati false) fun _ => hR.update fun _ => rfl

theorem addrSwitch (hR : InstrRel bus R) (m : Word) (byte : Bool) :
    Within R 1 (addrSwitch bus m byte) := by
  unfold Kd11ea.addrSwitch
  exact Graded.ite (hR.weaken rfl (hR.addrInc _ _)) <|
    Graded.ite (hR.weaken rfl (hR.addrDec _ _)) (hR.addrIndex _)

theorem addrForm (hR : InstrRel bus R) (m : Word) (byte : Bool) :
    Within R 2 (addrForm bus m byte) := by
  unfold Kd11ea.addrForm addrReg
  exact Graded.ite (hR.weaken rfl (hR.update fun _ => rfl)) <|
    hR.bind (hR.addrSwitch m byte) fun _ => hR.when hR.addrDeferred

theorem addrop (hR : InstrRel bus R) (m : Word) (byte : Bool) :
    Within R 2 (addrop bus m byte) := by
  unfold Kd11ea.addrop
  exact hR.weaken rfl <| hR.bind (hR.update fun _ => rfl) fun _ => hR.bind (hR.look _) fun _ =>
    hR.bind (hR.update fun _ => rfl) fun _ =>
    hR.bind (hR.addrForm m byte) fun _ => hR.update fun _ => rfl

theorem fetchop (hR : InstrRel bus R) (t : RegIdx) (m : Word) (byte : Bool) :
    Within R 1 (fetchop bus t m byte) := by
  unfold Kd11ea.fetchop fetchWord
  refine hR.bind (m := 1) (Graded.ite (hR.weaken rfl (hR.update fun _ => rfl)) ?_) fun _ =>
    hR.when (hR.update fun _ => rfl)
  exact hR.bind (hR.dati byte) fun _ => hR.update fun _ => rfl

theorem addrdest (hR : InstrRel bus R) (m : Word) (byte : Bool) :
    Within R 2 (addrdest bus m byte) := by
  unfold Kd11ea.addrdest
  exact hR.weaken rfl <| hR.bind (hR.update fun _ => rfl) fun _ => hR.addrop m byte

theorem writedest (hR : InstrRel bus R) (v : Word) (byte : Bool) :
    Within R 1 (writedest bus v byte) := by
  unfold Kd11ea.writedest writeRegister writeMemory
  refine hR.weaken rfl (m := 0 + (0 + 1)) <| hR.bind (hR.update fun _ => rfl) fun _ =>
    hR.bind (hR.look _) fun ir => Graded.ite (hR.weaken rfl (hR.update fun _ => rfl)) ?_
  exact hR.weaken rfl <| hR.bind (hR.update fun _ => rfl) fun _ => hR.dato byte

theorem operand (hR : InstrRel bus R) (t : RegIdx) (m : Word) (byte : Bool) :
    Within R 3 (operand bus t m byte) := by
  unfold Kd11ea.operand readop
  exact Graded.ite (hR.weaken rfl (hR.fetchop t m byte)) <| hR.weaken rfl <|
    hR.bind (hR.update fun _ => rfl) fun _ =>
    hR.bind (hR.addrop m byte) fun _ => hR.fetchop t m byte

theorem rdB (hR : InstrRel bus R) (byte : Bool) (ir : Word) : Within R 6 (rdB bus byte ir) := by
  unfold Kd11ea.rdB
  exact hR.bind (hR.operand _ _ _) fun _ => hR.operand _ _ _

theorem rdU (hR : InstrRel bus R) (byte : Bool) (ir : Word) : Within R 3 (rdU bus byte ir) := by
  unfold Kd11ea.rdU
  exact hR.bind (hR.operand _ _ _) fun _ => hR.update fun _ => rfl

theorem push (hR : InstrRel bus R) (inhov : Bool) : Within R 0 (push inhov) := by
  unfold Kd11ea.push
  exact hR.bind (hR.update fun _ => rfl) fun _ => hR.bind (hR.update fun _ => rfl) fun _ =>
    hR.when (hR.stackLimit _)

theorem pop (hR : InstrRel bus R) : Within R 0 pop := by
  unfold Kd11ea.pop
  exact hR.bind (hR.update fun _ => rfl) fun _ => hR.update fun _ => rfl

theorem outSp (hR : InstrRel bus R) (d : Kd11ea → Word) : Within R 1 (outSp bus d) := by
  unfold Kd11ea.outSp
  exact hR.weaken rfl <| hR.bind (hR.update fun _ => rfl) fun _ => hR.dato false

theorem popWord (hR : InstrRel bus R) : Within R 1 (popWord bus) := by
  unfold Kd11ea.popWord
  exact hR.weaken rfl <| hR.bind (hR.update fun _ => rfl) fun _ => hR.bind hR.pop fun _ =>
    hR.bind (hR.dati false) fun _ => hR.look _

theorem storeWhole (hR : InstrRel bus R) (byte : Bool) (dst v : Word) :
    Within R 1 (storeWhole bus byte dst v) := by
  unfold Kd11ea.storeWhole
  exact Graded.ite (hR.weaken rfl (hR.update fun _ => rfl)) (hR.writedest v byte)

theorem jump (hR : InstrRel bus R) (next : Next) : Within R 0 (Pure.pure next : M Next) :=
  hR.pure next

/-! ## Groups of instructions -/

/-- Each program of a group makes at most seven references. -/
def Group (R : ℕ → Machine → Machine → Prop) (x : Option (M Next)) : Prop :=
  ∀ p, x = some p → Within R 7 p

theorem group_none : Group R none := by
  rintro _ ⟨⟩

theorem group_some (hR : InstrRel bus R) {n : ℕ} {p : M Next} (hn : n.ble 7 = true)
    (h : Within R n p) : Group R (some p) := by
  rintro _ ⟨⟩
  exact hR.weaken hn h

theorem group_ite {c : Prop} [Decidable c] {x y : Option (M Next)} (hx : Group R x)
    (hy : Group R y) : Group R (if c then x else y) := by
  split
  · exact hx
  · exact hy

theorem group_orElse {x y : Option (M Next)} (hx : Group R x) (hy : Group R y) :
    Group R (x <|> y) := by
  cases x with
  | none => exact hy
  | some p => exact hx

/-! ## Double operand group -/

theorem mov (hR : InstrRel bus R) (byte : Bool) (ir : Word) : Within R 7 (mov bus byte ir) := by
  unfold Kd11ea.mov
  exact hR.bind (hR.rdB byte ir) fun _ => hR.bind (hR.alu _) fun _ =>
    hR.bind (hR.look _) fun _ => hR.bind (hR.storeWhole _ _ _) fun _ => hR.jump _

theorem binaryOp (hR : InstrRel bus R) (byte : Bool) (ir : Word)
    (op : Word → Word → CC → Alu.Result) (write : Bool) :
    Within R 7 (binaryOp bus byte ir op write) := by
  unfold Kd11ea.binaryOp wr
  exact hR.bind (hR.rdB byte ir) fun _ => hR.bind (hR.alu op) fun _ =>
    hR.bind (hR.when (hR.writedest _ byte)) fun _ => hR.jump _

theorem binary (hR : InstrRel bus R) (ir : Word) : Group R (binary bus ir) := by
  have hop : ∀ byte op write, Group R (some (Kd11ea.binaryOp bus byte ir op write)) :=
    fun byte op write => hR.group_some rfl (hR.binaryOp byte ir op write)
  exact group_ite (hR.group_some rfl (hR.mov _ _)) <| group_ite (hop _ _ _) <|
    group_ite (hop _ _ _) <| group_ite (hop _ _ _) <| group_ite (hop _ _ _) <|
    group_ite (hop _ _ _) <| group_ite (hop _ _ _) <|
    group_ite (hR.group_some rfl (hR.jump _)) group_none

/-! ## Extended instruction set -/

theorem storePair (hR : InstrRel bus R) (reg : RegIdx) (hi lo : Word) :
    Within R 0 (storePair reg hi lo) := by
  refine hR.update fun s => ?_
  split <;> rfl

theorem mul (hR : InstrRel bus R) (ir : Word) : Within R 3 (mul bus ir) := by
  unfold Kd11ea.mul
  exact hR.bind (hR.rdU _ ir) fun _ => hR.bind (hR.look _) fun _ =>
    hR.bind (hR.setCC _) fun _ => hR.bind (hR.storePair _ _ _) fun _ => hR.jump _

theorem div (hR : InstrRel bus R) (ir : Word) : Within R 3 (div bus ir) := by
  have hstore : ∀ reg pair, Within R 0 (storeQuotient reg pair) := by
    intro reg pair
    cases pair with
    | none => exact hR.pure ()
    | some _ => exact hR.update fun _ => rfl
  unfold Kd11ea.div
  exact hR.bind (hR.rdU _ ir) fun _ => hR.bind (hR.look _) fun _ =>
    hR.bind (hR.setCC _) fun _ => hR.bind (hstore _ _) fun _ => hR.jump _

theorem ash (hR : InstrRel bus R) (ir : Word) : Within R 3 (ash bus ir) := by
  unfold Kd11ea.ash
  exact hR.bind (hR.rdU _ ir) fun _ => hR.bind (hR.look _) fun _ =>
    hR.bind (hR.setCC _) fun _ => hR.bind (hR.update fun _ => rfl) fun _ => hR.jump _

theorem ashc (hR : InstrRel bus R) (ir : Word) : Within R 3 (ashc bus ir) := by
  unfold Kd11ea.ashc
  exact hR.bind (hR.rdU _ ir) fun _ => hR.bind (hR.look _) fun _ =>
    hR.bind (hR.setCC _) fun _ => hR.bind (hR.storePair _ _ _) fun _ => hR.jump _

theorem xor (hR : InstrRel bus R) (ir : Word) : Within R 4 (xor bus ir) := by
  unfold Kd11ea.xor wr
  exact hR.bind (hR.rdU _ ir) fun _ => hR.bind (hR.look _) fun _ =>
    hR.bind (hR.alu _) fun _ => hR.bind (hR.writedest _ _) fun _ => hR.jump _

theorem sob (hR : InstrRel bus R) (ir : Word) : Within R 0 (sob ir) := by
  unfold Kd11ea.sob
  exact hR.bind (hR.update fun _ => rfl) fun _ => hR.bind (hR.look _) fun _ =>
    hR.bind (hR.when (hR.update fun _ => rfl)) fun _ => hR.jump _

theorem eis (hR : InstrRel bus R) (ir : Word) : Group R (eis bus ir) :=
  group_ite (group_ite (hR.group_some rfl (hR.mul ir)) <| group_ite (hR.group_some rfl (hR.div ir)) <|
    group_ite (hR.group_some rfl (hR.ash ir)) <| group_ite (hR.group_some rfl (hR.ashc ir)) <|
    group_ite (hR.group_some rfl (hR.xor ir)) <| group_ite (hR.group_some rfl (hR.sob ir)) <|
    hR.group_some rfl (hR.jump _)) group_none

/-! ## Single operand group -/

theorem unaryOp (hR : InstrRel bus R) (byte : Bool) (ir : Word)
    (op : Word → Word → CC → Alu.Result) (write : Bool) :
    Within R 4 (unaryOp bus byte ir op write) := by
  unfold Kd11ea.unaryOp wr
  exact hR.bind (hR.rdU byte ir) fun _ => hR.bind (hR.alu op) fun _ =>
    hR.bind (hR.when (hR.writedest _ byte)) fun _ => hR.jump _

theorem mark (hR : InstrRel bus R) (ir : Word) : Within R 1 (mark bus ir) := by
  unfold Kd11ea.mark
  exact hR.weaken rfl <| hR.bind (hR.update fun _ => rfl) fun _ =>
    hR.bind (hR.update fun _ => rfl) fun _ => hR.bind hR.popWord fun _ =>
    hR.bind (hR.update fun _ => rfl) fun _ => hR.jump _

theorem mtpsOp (hR : InstrRel bus R) (ir : Word) : Within R 3 (Kd11ea.mtps bus ir) := by
  unfold Kd11ea.mtps
  exact hR.bind (hR.rdU _ ir) fun _ => hR.bind (Graded.modify hR.mtps) fun _ => hR.jump _

theorem mfpi (hR : InstrRel bus R) (ir : Word) : Within R 4 (mfpi bus ir) := by
  have hoperand : ∀ dst, Within R 3 (mfpiOperand bus dst) := by
    intro dst
    unfold mfpiOperand
    exact Graded.ite (hR.weaken rfl (hR.look _)) <| hR.bind (hR.addrdest dst false) fun _ =>
      hR.bind hR.prevDati fun _ => hR.look _
  unfold Kd11ea.mfpi clvNz
  exact hR.weaken rfl <| hR.bind (hoperand _) fun _ => hR.bind (hR.setCC _) fun _ =>
    hR.bind (hR.push false) fun _ => hR.bind (hR.outSp _) fun _ => hR.jump _

theorem mtpi (hR : InstrRel bus R) (ir : Word) : Within R 4 (mtpi bus ir) := by
  have hstore : ∀ dst b, Within R 3 (mtpiStore bus dst b) := by
    intro dst b
    unfold mtpiStore
    exact Graded.ite (hR.weaken rfl (m := 0) fun s => hR.prevRegister s _ _) <| hR.weaken rfl <|
      hR.bind (hR.addrdest dst false) fun _ => hR.bind (hR.update fun _ => rfl) fun _ =>
      hR.prevDato
  unfold Kd11ea.mtpi clvNz
  exact hR.weaken rfl <| hR.bind hR.popWord fun _ => hR.bind (hR.setCC _) fun _ =>
    hR.bind (hstore _ _) fun _ => hR.jump _

theorem storeFlags (hR : InstrRel bus R) (byte : Bool) (ir : Word) (b : Kd11ea → Word) :
    Within R 3 (storeFlags bus byte ir b) := by
  unfold Kd11ea.storeFlags clvNz
  exact hR.weaken rfl <| hR.bind (hR.when (hR.addrdest _ byte)) fun _ => hR.bind (hR.look _) fun _ =>
    hR.bind (hR.setCC _) fun _ => hR.bind (hR.storeWhole _ _ _) fun _ => hR.jump _

theorem unary (hR : InstrRel bus R) (ir : Word) : Group R (unary bus ir) := by
  have hop : ∀ byte op write, Group R (some (Kd11ea.unaryOp bus byte ir op write)) :=
    fun byte op write => hR.group_some rfl (hR.unaryOp byte ir op write)
  have hpair : ∀ (byte : Bool) {m n : ℕ} {p q : M Next}, m.ble 7 = true →
      n.ble 7 = true → Within R m p → Within R n q → Group R (some (if byte then p else q)) :=
    fun byte _ _ _ _ hm hn hp hq =>
      hR.group_some rfl (Graded.ite (hR.weaken hm hp) (hR.weaken hn hq))
  exact group_ite (hop _ _ _) <| group_ite (hop _ _ _) <| group_ite (hop _ _ _) <|
    group_ite (hop _ _ _) <| group_ite (hop _ _ _) <| group_ite (hop _ _ _) <|
    group_ite (hop _ _ _) <| group_ite (hop _ _ _) <| group_ite (hop _ _ _) <|
    group_ite (hop _ _ _) <| group_ite (hop _ _ _) <| group_ite (hop _ _ _) <|
    group_ite (hpair _ rfl rfl (hR.mtpsOp ir) (hR.mark ir)) <|
    group_ite (hR.group_some rfl (hR.mfpi ir)) <| group_ite (hR.group_some rfl (hR.mtpi ir)) <|
    group_ite (hpair _ rfl rfl (hR.storeFlags _ _ _) (hR.storeFlags _ _ _))
      group_none

/-! ## Jumps, branches and the rest -/

theorem jsr (hR : InstrRel bus R) (ir : Word) : Within R 3 (jsr bus ir) := by
  unfold Kd11ea.jsr
  exact Graded.ite (hR.weaken rfl (hR.jump _)) <| hR.weaken rfl <|
    hR.bind (hR.addrdest _ _) fun _ => hR.bind (hR.update fun _ => rfl) fun _ =>
    hR.bind (hR.push _) fun _ => hR.bind (hR.outSp _) fun _ =>
    hR.bind (hR.update fun _ => rfl) fun _ => hR.bind (hR.update fun _ => rfl) fun _ =>
    hR.jump _

theorem calls (hR : InstrRel bus R) (ir : Word) : Group R (calls bus ir) :=
  group_ite (hR.group_some rfl (hR.jsr ir)) <| group_ite (hR.group_some rfl (hR.jump _)) <|
    group_ite (hR.group_some rfl (hR.jump _)) group_none

theorem branch (hR : InstrRel bus R) (ir : Word) : Within R 0 (branch ir) := by
  unfold Kd11ea.branch
  refine hR.bind (m := 0) (hR.update fun s => ?_) fun _ => hR.jump _
  unfold Machine.quiet Machine.mapCpu
  dsimp only
  split <;> rfl

theorem branches (hR : InstrRel bus R) (ir : Word) : Group R (branches ir) :=
  group_ite (hR.group_some rfl (hR.branch ir)) group_none

theorem jmp (hR : InstrRel bus R) (ir : Word) : Within R 2 (jmp bus ir) := by
  unfold Kd11ea.jmp
  exact Graded.ite (hR.weaken rfl (hR.jump _)) <| hR.bind (hR.addrdest _ _) fun _ =>
    hR.bind (hR.update fun _ => rfl) fun _ => hR.jump _

theorem rts (hR : InstrRel bus R) (ir : Word) : Within R 1 (rts bus ir) := by
  unfold Kd11ea.rts
  exact hR.weaken rfl <| hR.bind (hR.update fun _ => rfl) fun _ => hR.bind hR.pop fun _ =>
    hR.bind (hR.update fun _ => rfl) fun _ => hR.bind (hR.dati _) fun _ =>
    hR.bind (hR.update fun _ => rfl) fun _ => hR.jump _

theorem ccop (hR : InstrRel bus R) (ir : Word) (value : Bool) : Within R 0 (ccop ir value) := by
  unfold Kd11ea.ccop
  exact hR.bind (hR.setCC _) fun _ => hR.jump _

theorem misc (hR : InstrRel bus R) (ir : Word) : Group R (misc bus ir) :=
  group_ite (hR.group_some rfl (hR.jmp ir)) <|
    group_ite (group_ite (hR.group_some rfl (hR.rts ir)) <|
      group_ite (hR.group_some rfl (hR.jump _)) (hR.group_some rfl (hR.ccop ir _))) <|
    group_ite (hR.group_some rfl (hR.unaryOp _ _ _ _)) group_none

theorem haltOp (hR : InstrRel bus R) : Within R 0 Kd11ea.halt := by
  intro s
  unfold Kd11ea.halt
  split_ifs with hkernel
  · exact hR.halt s hkernel
  · exact hR.refl s

theorem waitOp (hR : InstrRel bus R) : Within R 0 Kd11ea.wait := by
  have hstate : Within R 0 (Kd11ea.update ({ · with state := .waiting })) := hR.wait
  unfold Kd11ea.wait
  exact hR.bind hstate fun _ => hR.jump _

theorem rtiOp (hR : InstrRel bus R) (ir : Word) : Within R 2 (Kd11ea.rti bus ir) := by
  unfold Kd11ea.rti
  exact hR.weaken rfl <| hR.bind hR.popWord fun _ => hR.bind (hR.update fun _ => rfl) fun _ =>
    hR.bind hR.popWord fun b => hR.bind (hR.look _) fun _ =>
    hR.bind (Graded.modify fun s => hR.rti s b) fun _ => hR.jump _

theorem resetOp (hR : InstrRel bus R) : Within R 0 Kd11ea.resetOp := by
  unfold Kd11ea.resetOp
  refine hR.bind (m := 0) (Graded.modify fun s => ?_) fun _ => hR.jump _
  split_ifs with hkernel
  · exact hR.reset s hkernel
  · exact hR.refl s

theorem operate (hR : InstrRel bus R) (ir : Word) : Group R (operate bus ir) :=
  group_ite (hR.group_some rfl hR.haltOp) <| group_ite (hR.group_some rfl hR.waitOp) <|
    group_ite (hR.group_some rfl (hR.rtiOp ir)) <| group_ite (hR.group_some rfl (hR.jump _)) <|
    group_ite (hR.group_some rfl (hR.jump _)) <| group_ite (hR.group_some rfl hR.resetOp) group_none

/-! ## Any instruction -/

/-- Every opcode, the reserved ones included. -/
theorem execute (hR : InstrRel bus R) (ir : Word) : Within R 7 (execute bus ir) := by
  have hgroup := group_orElse (hR.binary ir) <| group_orElse (hR.eis ir) <|
    group_orElse (hR.unary ir) <| group_orElse (hR.calls ir) <|
    group_orElse (hR.branches ir) <| group_orElse (hR.misc ir) (hR.operate ir)
  unfold Kd11ea.execute
  cases hx : (Kd11ea.binary bus ir <|> Kd11ea.eis bus ir <|> Kd11ea.unary bus ir
      <|> Kd11ea.calls bus ir <|> Kd11ea.branches ir <|> Kd11ea.misc bus ir
      <|> Kd11ea.operate bus ir) with
  | none => exact hR.weaken rfl (hR.jump _)
  | some p => exact hgroup p hx

theorem fetch (hR : InstrRel bus R) : Within R 1 (fetch bus) := by
  unfold Kd11ea.fetch
  exact hR.weaken rfl <| hR.bind (Graded.modify hR.started) fun _ =>
    hR.bind (hR.update fun _ => rfl) fun _ => hR.bind (hR.update fun _ => rfl) fun _ =>
    hR.bind (hR.update fun _ => rfl) fun _ => hR.bind (hR.dati false) fun _ =>
    hR.bind (hR.update fun _ => rfl) fun _ => hR.bind (Graded.modify hR.fetched) fun _ =>
    hR.bind (hR.update fun _ => rfl) fun _ => hR.look _

/-- One instruction, with its fetch, makes at most eight references. -/
theorem instruction (hR : InstrRel bus R) : Within R 8 (instruction bus) := by
  unfold Kd11ea.instruction
  exact hR.bind hR.fetch fun ir => hR.execute ir

end InstrRel

/-! ## The trap sequence -/

/-- A relation every primitive of the trap sequence keeps to. -/
structure TrapRel (bus : Bus) (inhov : Bool) (R : ℕ → Machine → Machine → Prop) : Prop
    extends Graded R where
  calm : ∀ s t : Machine, s.calm = t.calm → R 0 s t
  spaceKernel : ∀ s : Machine, R 0 s (s.mapCpu spaceKernel)
  spaceRestore : ∀ s : Machine, R 0 s (s.mapCpu spaceRestore)
  dati : Within R 1 (dati bus false)
  dato : Within R 1 (dato bus false)
  setPsw : ∀ (s : Machine) (w : Word), R 0 s (s.setPsw w)
  stackLimit : inhov = false → ∀ s : Machine,
    R 0 s (s.mapCpu fun cpu => stackLimit cpu (cpu.r 6))

namespace TrapRel

variable {bus : Bus} {inhov : Bool} {R : ℕ → Machine → Machine → Prop} {α : Type}

theorem update (hR : TrapRel bus inhov R) {f : Kd11ea → Kd11ea}
    (hf : ∀ s : Machine, s.calm = (s.mapCpu f).calm) : Within R 0 (update f) :=
  fun s => hR.calm s _ (hf s)

theorem look (hR : TrapRel bus inhov R) (f : Kd11ea → α) : Within R 0 (look f) :=
  fun s => hR.refl s

theorem push (hR : TrapRel bus inhov R) : Within R 0 (push inhov) := by
  have hlimit : Within R 0
      (when (inhov = false) (Kd11ea.update fun cpu => Kd11ea.stackLimit cpu (cpu.r 6))) := by
    unfold when
    split
    case isTrue hinhov => exact fun s => hR.stackLimit hinhov s
    case isFalse => exact hR.pure ()
  unfold Kd11ea.push
  exact hR.bind (hR.update fun _ => rfl) fun _ => hR.bind (hR.update fun _ => rfl) fun _ =>
    hlimit

theorem outSp (hR : TrapRel bus inhov R) (d : Kd11ea → Word) : Within R 1 (outSp bus d) := by
  unfold Kd11ea.outSp
  exact hR.weaken rfl <| hR.bind (hR.update fun _ => rfl) fun _ => hR.dato

theorem vectorFetch (hR : TrapRel bus inhov R) : Within R 1 (vectorFetch bus) := by
  unfold Kd11ea.vectorFetch
  have hkernel : Within R 0 (Kd11ea.update Kd11ea.spaceKernel) := hR.spaceKernel
  exact hR.weaken rfl <| hR.bind (hR.update fun _ => rfl) fun _ => hR.bind hkernel fun _ =>
    hR.bind (hR.update fun _ => rfl) fun _ => hR.bind hR.dati fun _ => hR.look _

theorem trapRest (hR : TrapRel bus inhov R) (trappedPc trappedPsw newpc : Word) :
    Within R 3 (trapRest bus inhov trappedPc trappedPsw newpc) := by
  have hrestore : Within R 0 (Kd11ea.update Kd11ea.spaceRestore) := hR.spaceRestore
  unfold Kd11ea.trapRest
  exact hR.weaken rfl <| hR.bind (hR.update fun _ => rfl) fun _ => hR.bind hR.dati fun _ =>
    hR.bind (hR.look _) fun _ => hR.bind hrestore fun _ =>
    hR.bind (Graded.modify fun s => hR.setPsw s _) fun _ =>
    hR.bind hR.push fun _ => hR.bind (hR.outSp _) fun _ =>
    hR.bind hR.push fun _ => hR.bind (hR.outSp _) fun _ => hR.update fun _ => rfl

/-- A trap sequence makes at most four references. -/
theorem trapSequence (hR : TrapRel bus inhov R) : Within R 4 (trapSequence bus inhov) := by
  unfold Kd11ea.trapSequence
  exact hR.weaken rfl <| hR.bind (hR.look _) fun _ => hR.bind (hR.look _) fun _ =>
    hR.bind hR.vectorFetch fun _ => hR.trapRest _ _ _

end TrapRel

/-! ## Whole runs -/

/-- A relation everything keeps to that can happen to the processor. -/
structure RunRel (bus : Bus) (R : Machine → Machine → Prop) : Prop where
  instr : InstrRel bus (ungraded R)
  trap : ∀ inhov, TrapRel bus inhov (ungraded R)
  outer : ∀ s t : Machine, s.outer = t.outer → R s t
  reset : ∀ s : Machine, R s s.reset

namespace RunRel

variable {bus : Bus} {R : Machine → Machine → Prop}

theorem trans_rel (hR : RunRel bus R) {s t u : Machine} (hst : R s t) (htu : R t u) : R s u :=
  hR.instr.trans (m := 0) (n := 0) hst htu

theorem service (hR : RunRel bus R) (m : Machine) (inhov t : Bool) :
    R m (service m inhov t).machine := by
  refine hR.outer _ _ ?_
  unfold Kd11ea.service trapTo
  split_ifs <;> rfl

theorem busError (hR : RunRel bus R) (m : Machine) (inhov : Bool) (oldpsw : Option Word) :
    R m (busError m inhov oldpsw).machine := by
  unfold Kd11ea.busError trapTo
  split
  · exact hR.outer _ _ rfl
  · cases oldpsw with
    | none => exact hR.outer _ _ rfl
    | some old =>
        have hcodes := hR.instr.codes m (CC.ofPsw old)
        simp only [CC.store_ofPsw] at hcodes
        exact hR.trans_rel hcodes (hR.outer _ _ rfl)

theorem stepStart (hR : RunRel bus R) (m : Machine) : R m (stepStart bus m).machine := by
  unfold Kd11ea.stepStart
  split
  · exact hR.outer _ _ rfl
  · have hinstr := hR.instr.instruction m
    cases hres : Kd11ea.instruction bus m with
    | ok next m' =>
        rw [hres] at hinstr
        cases next with
        | service t => exact hR.trans_rel hinstr (hR.service _ _ _)
        | trap v => exact hR.trans_rel hinstr (hR.outer _ _ rfl)
        | ret => exact hinstr
    | error _ m' =>
        rw [hres] at hinstr
        exact hR.trans_rel hinstr (hR.busError _ _ _)

theorem trapRound (hR : RunRel bus R) (s : Round) : R s.machine (trapRound bus s).machine := by
  have hseq := (hR.trap s.inhov).trapSequence s.machine
  unfold Kd11ea.trapRound
  cases hres : Kd11ea.trapSequence bus s.inhov s.machine with
  | ok _ m =>
      rw [hres] at hseq
      exact hR.trans_rel hseq (hR.service _ _ _)
  | error _ m =>
      rw [hres] at hseq
      exact hR.trans_rel hseq (hR.busError _ _ _)

/-- A step which returns. -/
theorem step (hR : RunRel bus R) {m m' : Machine} {why : Stop} (h : Step bus m why m') :
    R m m' := by
  obtain ⟨n, hn⟩ := h
  have hstart := hR.stepStart m
  cases hjump : Kd11ea.stepStart bus m with
  | inl stop =>
      rw [hjump] at hn hstart
      cases hn
      exact hstart
  | inr s =>
      rw [hjump] at hn hstart
      refine Loop.Returns.of_invariant (I := fun s : Round => R m s.machine)
        (Q := fun stop => R m stop.2) ?_ ?_ ⟨n, hn⟩ hstart
      · intro s t hs hst
        have hround := hR.trapRound s
        rw [hst] at hround
        exact hR.trans_rel hs hround
      · intro s stop hs hst
        have hround := hR.trapRound s
        rw [hst] at hround
        exact hR.trans_rel hs hround

theorem pwrupVectorFetch (hR : RunRel bus R) (m : Machine) : R m (pwrupVectorFetch bus m) := by
  have hI := hR.instr
  have hload := hI.bind (hI.update (f := ({ · with ba := 0o24 })) fun _ => rfl) fun _ =>
    hI.bind (hI.dati false) fun _ =>
    hI.bind (hI.update (f := fun cpu => cpu.setR 7 cpu.bdata) fun _ => rfl) fun _ =>
    hI.bind (hI.update (f := ({ · with ba := 0o26 })) fun _ => rfl) fun _ =>
    hI.bind (hI.dati false) fun _ =>
    Graded.modify (n := 0) (f := fun m : Machine => m.setPsw m.cpu.bdata) (ε := Unit)
      fun m => (hR.trap false).setPsw m m.cpu.bdata
  have hfinal := hload m
  unfold Kd11ea.pwrupVectorFetch
  dsimp only
  split
  case h_1 hres =>
    rw [hres] at hfinal
    exact hfinal
  case h_2 hres =>
    rw [hres] at hfinal
    exact hR.trans_rel hfinal (hR.outer _ _ rfl)

theorem condstepStart (hR : RunRel bus R) (m : Machine) : R m (condstepStart m) := by
  refine hR.outer _ _ ?_
  unfold Kd11ea.condstepStart
  dsimp only
  split_ifs <;> rfl

theorem trans (hR : RunRel bus R) {m m' : Machine} {why : Option Stop}
    (h : Trans bus m why m') : R m m' := by
  cases h with
  | idle => exact hR.condstepStart m
  | step _ hstep => exact hR.trans_rel (hR.condstepStart m) (hR.step hstep)
  | console => exact hR.outer _ _ rfl
  | setintr => exact hR.outer _ _ rfl
  | pwrfail => exact hR.outer _ _ rfl
  | reset => exact hR.reset m
  | pwrup => exact hR.pwrupVectorFetch m

end RunRel

end Kd11ea

end QUniBone
