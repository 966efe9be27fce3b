import QUniBone.Cpu34.AbortRecord
import QUniBone.Cpu34.Step

/-!
# The references of an instruction

What an instruction does to the general registers on its way from one memory reference to the
next. The description knows nothing of the bus, nor of the autoincrement the processor has
pending: the increment to take back when a reference fails is the one which formed the address
of that reference.

* `Move`, `Stage`: the register changes in front of a reference, and its own autoincrement.
* `forming`: the references of `addrop()`, and the one it forms the address of.
* `Kind.plan`: the references of an instruction, in their order.
* `Aborts`: the registers an aborted reference leaves.
-/

namespace QUniBone

/-! ## Register changes -/

/-- A change of a general register. -/
inductive Move where
  /-- Add a constant. `logged` changes are those which go to MMR1. -/
  | add (r : RegIdx) (amount : Word) (logged : Bool)
  /-- Take over a register, plus a constant. -/
  | copy (r src : RegIdx) (offset : Word)
  /-- Take over a word which was read. -/
  | load (r : RegIdx) (w : Word)
deriving DecidableEq, Repr

namespace Move

def apply (regs : RegIdx → Word) : Move → RegIdx → Word
  | add r amount _ => Function.update regs r (regs r + amount)
  | copy r src offset => Function.update regs r (regs src + offset)
  | load r w => Function.update regs r w

def logged : Move → List (RegIdx × Word)
  | add r amount true => [(r, amount)]
  | _ => []

end Move

/-- The register changes between a reference and the one before it, and the autoincrement
which forms the address, if one does. -/
structure Stage where
  moves : List Move
  own : Option (RegIdx × Word)

namespace Stage

/-- Nothing happens to the registers. -/
def idle : Stage := ⟨[], none⟩

/-- One more register change. -/
def move (s : Stage) (mv : Move) : Stage := { s with moves := s.moves ++ [mv] }

/-- `SP -= 2` of `PUSH`. -/
def push (s : Stage) : Stage := s.move (.add 6 (-2) false)

/-- `POP`. -/
def pop (s : Stage) : Stage := { s.move (.add 6 2 false) with own := some (6, 2) }

end Stage

/-- All register changes up to the last of these references. -/
def movesOf (plan : List Stage) : List Move := plan.flatMap Stage.moves

/-- Those of them MMR1 is there for. -/
def loggedOf (moves : List Move) : List (RegIdx × Word) := moves.flatMap Move.logged

/-- The registers after these changes. -/
def applyMoves (regs : RegIdx → Word) (moves : List Move) : RegIdx → Word :=
  moves.foldl Move.apply regs

/-- Take an autoincrement back. -/
def backOut (own : Option (RegIdx × Word)) (regs : RegIdx → Word) : RegIdx → Word :=
  match own with
  | some (r, amount) => Function.update regs r (regs r - amount)
  | none => regs

/-- An abort of reference `k` of the plan leaves `regs'` of the registers `regs`. -/
def Aborts (plan : List Stage) (k : ℕ) (regs regs' : RegIdx → Word) : Prop :=
  ∃ s, plan[k]? = some s ∧ regs' = backOut s.own (applyMoves regs (movesOf (plan.take (k + 1))))

/-! ## Operands -/

namespace Kd11ea

/-- `addrop()`: the references it makes, and the way to the one it forms the address of. -/
def forming (m : Word) (byte : Bool) : List Stage × Stage :=
  let ai := autoincAmount m byte
  if m.addrMode &&& 6 = 0 then ([], .idle)
  else
    let formed : List Stage × Stage :=
      if m.addrMode &&& 6 = 2 then ([], ⟨[.add m.reg ai true], some (m.reg, ai)⟩)
      else if m.addrMode &&& 6 = 4 then ([], ⟨[.add m.reg (-ai) true], none⟩)
      else ([⟨[.add 7 2 false], none⟩], .idle)
    if m.addrMode.getLsbD 0 then (formed.1 ++ [formed.2], .idle) else formed

/-- Forming the address of an operand and making the reference to it. -/
def reference (m : Word) (byte : Bool) : List Stage :=
  (forming m byte).1 ++ [(forming m byte).2]

/-- Reading an operand: a register takes no reference. -/
def reading (m : Word) (byte : Bool) : List Stage :=
  if m.addrMode = 0 then [] else reference m byte

/-- Writing a result where the operand was read. -/
def writing (ir : Word) : List Stage := if ir.addrMode = 0 then [] else [.idle]

/-! ## Instructions -/

/-- Instructions by the references they make. -/
inductive Kind where
  /-- `RD_B`, and `WR` or not. -/
  | double (byte write : Bool)
  /-- `RD_U`, and `WR` or not. -/
  | single (byte write : Bool)
  /-- `SXT` and `MFPS`, which write without reading. -/
  | store (byte : Bool)
  | mark
  | mfpi
  | mtpi
  | jsr
  | jmp
  | rts
  /-- `RTI` and `RTT`. -/
  | rti
  /-- No reference but the opcode fetch. -/
  | silent
deriving DecidableEq

/-- `switch(cpu->ir & 0170000)`, less the extended instruction set. -/
def binaryKind (ir : Word) : Option Kind :=
  let byte := byteOf ir
  let op := ir &&& 0o170000
  if op = 0o110000 ∨ op = 0o010000 then some (.double byte true)
  else if op = 0o120000 ∨ op = 0o020000 then some (.double byte false)
  else if op = 0o130000 ∨ op = 0o030000 then some (.double byte false)
  else if op = 0o140000 ∨ op = 0o040000 then some (.double byte true)
  else if op = 0o150000 ∨ op = 0o050000 then some (.double byte true)
  else if op = 0o060000 then some (.double false true)
  else if op = 0o160000 then some (.double false true)
  else if op = 0o170000 then some .silent
  else none

/-- `switch(cpu->ir & 0177000)`. -/
def eisKind (ir : Word) : Option Kind :=
  if ir &&& 0o170000 = 0o070000 then
    let op := ir &&& 0o177000
    if op = 0o070000 then some (.single (byteOf ir) false)
    else if op = 0o071000 then some (.single (byteOf ir) false)
    else if op = 0o072000 then some (.single (byteOf ir) false)
    else if op = 0o073000 then some (.single (byteOf ir) false)
    else if op = 0o074000 then some (.single (byteOf ir) true)
    else some .silent
  else none

/-- `switch(cpu->ir & 0007700)`. -/
def unaryKind (ir : Word) : Option Kind :=
  let byte := byteOf ir
  let op := ir &&& 0o007700
  if op = 0o005000 ∨ op = 0o005100 ∨ op = 0o005200 ∨ op = 0o005300 ∨ op = 0o005400
      ∨ op = 0o005500 ∨ op = 0o005600 then some (.single byte true)
  else if op = 0o005700 then some (.single byte false)
  else if op = 0o006000 ∨ op = 0o006100 ∨ op = 0o006200 ∨ op = 0o006300 then
    some (.single byte true)
  else if op = 0o006400 then some (if byte then .single byte false else .mark)
  else if op = 0o006500 then some .mfpi
  else if op = 0o006600 then some .mtpi
  else if op = 0o006700 then some (.store byte)
  else none

/-- `switch(cpu->ir & 0107400)`. -/
def callsKind (ir : Word) : Option Kind :=
  let op := ir &&& 0o107400
  if op = 0o004000 ∨ op = 0o004400 then some .jsr
  else if op = 0o104000 ∨ op = 0o104400 then some .silent
  else none

/-- The branches. -/
def branchesKind (ir : Word) : Option Kind :=
  if ir &&& 0o074000 = 0 ∧ ir &&& 0o103400 ≠ 0 then some .silent else none

/-- `switch(cpu->ir & 0777300)`. -/
def miscKind (ir : Word) : Option Kind :=
  let op := ir &&& 0o177300
  if op = 0o100 then some .jmp
  else if op = 0o200 then some (if ir &&& 0o70 = 0 then .rts else .silent)
  else if op = 0o300 then some (.single (byteOf ir) true)
  else none

/-- `switch(cpu->ir)`, and the reserved instructions. -/
def operateKind (ir : Word) : Kind := if ir = 2 ∨ ir = 6 then .rti else .silent

/-- The kind of an instruction, the groups in the order of the source. -/
def kindOf (ir : Word) : Kind :=
  (binaryKind ir <|> eisKind ir <|> unaryKind ir <|> callsKind ir <|> branchesKind ir
    <|> miscKind ir).getD (operateKind ir)

/-- The push of `JSR`, `own` being the autoincrement taken back if it fails. -/
def jsrPush (ir : Word) (own : Option (RegIdx × Word)) : Stage :=
  { (forming (dstOf ir) false).2.push with own := own }

/-- The references of an instruction after its fetch. `pc` is the word `RTI` takes for PC. -/
def Kind.planWith (ir pc : Word) (own : Option (RegIdx × Word)) : Kind → List Stage
  | .double byte write =>
      reading (srcOf ir) byte ++ reading (dstOf ir) byte ++ if write then writing ir else []
  | .single byte write => reading (dstOf ir) byte ++ if write then writing ir else []
  | .store byte => reading (dstOf ir) byte
  | .mark => [((Stage.idle.move (.copy 6 7 (2 * (ir &&& 0o77)))).move (.copy 7 5 0)).pop]
  | .mfpi => reading (dstOf ir) false ++ [Stage.idle.push]
  | .mtpi => Stage.idle.pop :: reading (dstOf ir) false
  | .jsr => (forming (dstOf ir) false).1 ++ [jsrPush ir own]
  | .jmp => (forming (dstOf ir) false).1
  | .rts => [Stage.idle.pop.move (.copy 7 (dstOf ir).reg 0)]
  | .rti => [Stage.idle.pop, (Stage.idle.move (.load 7 pc)).pop]
  | .silent => []

/-- The references of the instruction `ir`: the address of a push is formed by no
autoincrement. -/
def plan (ir pc : Word) : List Stage := (kindOf ir).planWith ir pc none

/-- The general registers, the scratch registers blanked. -/
def general (cpu : Kd11ea) : RegIdx → Word := fun i => if i.val < 8 then cpu.r i else 0

end Kd11ea

/-! ## What has been referenced -/

/-- A bus reference which was answered. -/
def BusEvent.succeeded : BusEvent → Bool
  | .dati _ answer => answer.isSome
  | .dato _ _ success => success
  | .datob _ _ success => success
  | _ => false

def CpuEvent.isInternalRef : CpuEvent → Bool
  | .internalRef _ => true
  | _ => false

/-- How many references were made with success. -/
def Machine.references (m : Machine) : ℕ :=
  m.bus.countP BusEvent.succeeded + m.hist.countP CpuEvent.isInternalRef

end QUniBone
