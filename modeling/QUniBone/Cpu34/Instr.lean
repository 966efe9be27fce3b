import QUniBone.Cpu34.Kd11ea

/-!
# The KD11-EA: instructions

The instruction part of `step()`. Each `switch` of the source is one function here, from the
opcode to the program of its `case`, and `execute` tries them in the order of the source.
-/

namespace QUniBone.Kd11ea

open Prog

/-- The label an instruction leaves for. -/
inductive Next where
  /-- `SVC`; `t` is `oldpsw |= PSW_T`. -/
  | service (t : Bool)
  /-- `TRAP(v)`. -/
  | trap (v : Word)
  /-- `return`. -/
  | ret

/-- `SVC`. -/
def svc : M Next := pure (.service false)

/-- `goto ri`: a reserved instruction. -/
def ri : M Next := pure (.trap 0o10)

/-- `goto ill`. -/
def ill : M Next := pure (.trap 4)

/-! ## Shared steps -/

/-- `src`. -/
def srcOf (ir : Word) : Word := (ir >>> 6) &&& 0o77

/-- `dst`. -/
def dstOf (ir : Word) : Word := ir &&& 0o77

/-- `by`: the byte form of an instruction. -/
def byteOf (ir : Word) : Bool := ir.sgn

/-- `(cpu->ir >> 6) & 07`, the register field `reg` of the extended instruction set. -/
def regOf (ir : Word) : RegIdx := Word.reg (ir >>> 6)

/-- `reg | 1`. -/
def pairLow (reg : RegIdx) : RegIdx := if reg.val % 2 = 1 then reg else reg + 1

/-- Set condition codes. -/
def setCC (f : Kd11ea → CC) : M Unit :=
  update fun cpu => { cpu with psw := (f cpu).store cpu.psw }

/-- An operation of the arithmetic unit on `SR` and `DR`: set the codes, give `b`. -/
def alu (op : Word → Word → CC → Alu.Result) : M UInt := do
  let result ← look fun cpu => op (cpu.r 8) (cpu.r 9) (CC.ofPsw cpu.psw)
  setCC fun _ => result.2
  return result.1

/-- `CLV; NZ` for a word `b`. -/
def clvNz (b : Word) : M Unit :=
  setCC fun cpu => { CC.ofPsw cpu.psw with v := false }.setnz b

/-- `PUSH`. -/
def push (inhov : Bool) : M Unit := do
  update fun cpu => cpu.setR 6 (cpu.r 6 - 2)
  update (·.setDestRef false)
  when (inhov = false) (update fun cpu => stackLimit cpu (cpu.r 6))

/-- `POP`. -/
def pop : M Unit := do
  update fun cpu => cpu.setR 6 (cpu.r 6 + 2)
  update (·.autoincPending 6 2)

variable (bus : Bus)

/-- `OUT(SP, d)`. -/
def outSp (d : Kd11ea → Word) : M Unit := do
  update fun cpu => { cpu with ba := cpu.r 6, bdata := d cpu }
  dato bus false

/-- `BA = SP; POP; IN(d)`: the word popped. -/
def popWord : M Word := do
  update fun cpu => { cpu with ba := cpu.r 6 }
  pop
  dati bus false
  look (·.bdata)

/-- One operand of `RD_B` and `RD_U`: a register goes through `fetchop()` alone. -/
def operand (t : RegIdx) (m : Word) (byte : Bool) : M Unit :=
  if m.addrMode = 0 then fetchop bus t m byte else readop bus t m byte

/-- `RD_B`: the source strictly before the destination. -/
def rdB (byte : Bool) (ir : Word) : M Unit := do
  operand bus 8 (srcOf ir) byte
  operand bus 9 (dstOf ir) byte

/-- `RD_U`. -/
def rdU (byte : Bool) (ir : Word) : M Unit := do
  operand bus 9 (dstOf ir) byte
  update fun cpu => cpu.setR 8 (cpu.r 9)

/-- `WR`. -/
def wr (b : UInt) (byte : Bool) : M Unit := writedest bus (Word.ofUInt b) byte

/-- `SPACE_PREV; x; SPACE_RESTORE`, whichever way `x` ends. -/
def inPrevSpace (x : M Unit) : M Unit := do
  update spacePrev
  finallyDo x (·.mapCpu spaceRestore)

/-! ## Double operand group -/

/-- `RD_B`, the operation, and `WR` if it has a result to store. -/
def binaryOp (byte : Bool) (ir : Word) (op : Word → Word → CC → Alu.Result) (write : Bool) :
    M Next := do
  rdB bus byte ir
  let b ← alu op
  when write (wr bus b byte)
  svc

/-- `MOV`, `SXT` and `MFPS` write a register as a whole, so the byte forms extend the sign. -/
def storeWhole (byte : Bool) (dst v : Word) : M Unit :=
  if dst.addrMode = 0 then update fun cpu => cpu.setR dst.reg v else writedest bus v byte

def mov (byte : Bool) (ir : Word) : M Next := do
  rdB bus byte ir
  let _ ← alu fun sr _ cc => Alu.mov sr cc
  let sr ← look (·.r 8)
  storeWhole bus byte (dstOf ir) sr
  svc

/-- `switch(cpu->ir & 0170000)`, less the extended instruction set. -/
def binary (ir : Word) : Option (M Next) :=
  let byte := byteOf ir
  let op := ir &&& 0o170000
  if op = 0o110000 ∨ op = 0o010000 then some (mov bus byte ir)
  else if op = 0o120000 ∨ op = 0o020000 then some (binaryOp bus byte ir (Alu.cmp byte) false)
  else if op = 0o130000 ∨ op = 0o030000 then some (binaryOp bus byte ir Alu.bit false)
  else if op = 0o140000 ∨ op = 0o040000 then some (binaryOp bus byte ir Alu.bic true)
  else if op = 0o150000 ∨ op = 0o050000 then some (binaryOp bus byte ir Alu.bis true)
  else if op = 0o060000 then some (binaryOp bus false ir Alu.add true)
  else if op = 0o160000 then some (binaryOp bus false ir Alu.sub true)
  else if op = 0o170000 then some ri
  else none

/-! ## Extended instruction set -/

/-- Store a register pair, the low word only if the register is odd. -/
def storePair (reg : RegIdx) (hi lo : Word) : M Unit :=
  update fun cpu =>
    if reg.val % 2 = 1 then cpu.setR reg lo else (cpu.setR reg hi).setR (reg + 1) lo

/-- Store quotient and remainder, unless the division overflowed. -/
def storeQuotient (reg : RegIdx) : Option Alu.Pair → M Unit
  | some (quot, rem) => update fun cpu => (cpu.setR reg quot).setR (pairLow reg) rem
  | none => pure ()

def mul (ir : Word) : M Next := do
  rdU bus (byteOf ir) ir
  let result ← look fun cpu => Alu.mul (cpu.r 9) (cpu.r (regOf ir))
  setCC fun _ => result.2
  storePair (regOf ir) (Word.ofUInt (result.1 >>> 16)) (Word.ofUInt result.1)
  svc

def div (ir : Word) : M Next := do
  rdU bus (byteOf ir) ir
  let result ← look fun cpu =>
    Alu.div (cpu.r 9) (cpu.r (regOf ir)) (cpu.r (pairLow (regOf ir)))
  setCC fun _ => result.2
  storeQuotient (regOf ir) result.1
  svc

def ash (ir : Word) : M Next := do
  rdU bus (byteOf ir) ir
  let result ← look fun cpu => Alu.ash (cpu.r 9) (cpu.r (regOf ir)) (CC.ofPsw cpu.psw)
  setCC fun _ => result.2
  update fun cpu => cpu.setR (regOf ir) result.1
  svc

def ashc (ir : Word) : M Next := do
  rdU bus (byteOf ir) ir
  let result ← look fun cpu =>
    Alu.ashc (cpu.r 9) (cpu.r (regOf ir)) (cpu.r (pairLow (regOf ir))) (CC.ofPsw cpu.psw)
  setCC fun _ => result.2
  storePair (regOf ir) (Word.ofUInt (result.1 >>> 16)) (Word.ofUInt result.1)
  svc

def xor (ir : Word) : M Next := do
  rdU bus (byteOf ir) ir
  let reg ← look (·.r (regOf ir))
  let b ← alu fun _ dr cc => Alu.xor dr reg cc
  wr bus b (byteOf ir)
  svc

def sob (ir : Word) : M Next := do
  update fun cpu => cpu.setR (regOf ir) (cpu.r (regOf ir) - 1)
  let b ← look (·.r (regOf ir))
  when (b ≠ 0) (update fun cpu => cpu.setR 7 (cpu.r 7 - ((ir &&& 0o77) <<< 1)))
  svc

/-- `case 0070000`, `switch(cpu->ir & 0177000)`. -/
def eis (ir : Word) : Option (M Next) :=
  if ir &&& 0o170000 = 0o070000 then
    let op := ir &&& 0o177000
    if op = 0o070000 then some (mul bus ir)
    else if op = 0o071000 then some (div bus ir)
    else if op = 0o072000 then some (ash bus ir)
    else if op = 0o073000 then some (ashc bus ir)
    else if op = 0o074000 then some (xor bus ir)
    else if op = 0o077000 then some (sob ir)
    else some ri
  else none

/-! ## Single operand group -/

/-- `RD_U`, the operation, and `WR` if it has a result to store. -/
def unaryOp (byte : Bool) (ir : Word) (op : Word → Word → CC → Alu.Result) (write : Bool) :
    M Next := do
  rdU bus byte ir
  let b ← alu op
  when write (wr bus b byte)
  svc

def mark (ir : Word) : M Next := do
  update fun cpu => cpu.setR 6 (cpu.r 7 + 2 * (ir &&& 0o77))
  update fun cpu => cpu.setR 7 (cpu.r 5)
  let d ← popWord bus
  update fun cpu => cpu.setR 5 d
  svc

/-- The PSW `MTPS` loads: neither the mode nor T, and outside kernel mode no priority. -/
def mtpsPsw (cpu : Kd11ea) : Word :=
  let b := cpu.r 9 &&& (0o377 &&& ~~~pswT)
  let b := if cpu.isKernel then b else (b &&& ~~~pswPr) ||| (cpu.psw &&& pswPr)
  (cpu.psw &&& (0xff00 ||| pswT)) ||| b

def mtps (ir : Word) : M Next := do
  rdU bus (byteOf ir) ir
  modify fun m => m.setPsw (mtpsPsw m.cpu)
  svc

/-- A register as `MFPI` reads it: R6 is the stack pointer of the previous mode. -/
def prevRegister (df : RegIdx) (cpu : Kd11ea) : Word :=
  if df = 6 ∧ cpu.mmu.prevSpace ≠ cpu.mmu.space then cpu.stackpointer cpu.mmu.prevSpace
  else cpu.r df

/-- A register as `MTPI` writes it. -/
def setPrevRegister (df : RegIdx) (b : Word) (cpu : Kd11ea) : Kd11ea :=
  if df = 6 ∧ cpu.mmu.prevSpace ≠ cpu.mmu.space then
    { cpu with stackpointer := Function.update cpu.stackpointer cpu.mmu.prevSpace b }
  else cpu.setR df b

/-- The word `MFPI` moves. -/
def mfpiOperand (dst : Word) : M Word :=
  if dst.addrMode = 0 then look (prevRegister dst.reg)
  else do
    addrdest bus dst false
    inPrevSpace (dati bus false)
    look (·.bdata)

def mfpi (ir : Word) : M Next := do
  let b ← mfpiOperand bus (dstOf ir)
  clvNz b
  push false
  outSp bus fun _ => b
  svc

/-- Where `MTPI` moves it. -/
def mtpiStore (dst b : Word) : M Unit :=
  if dst.addrMode = 0 then update (setPrevRegister dst.reg b)
  else do
    addrdest bus dst false
    update fun cpu => { cpu with bdata := b }
    inPrevSpace (dato bus false)

def mtpi (ir : Word) : M Next := do
  let b ← popWord bus
  clvNz b
  mtpiStore bus (dstOf ir) b
  svc

/-- `SXT` and `MFPS`. -/
def storeFlags (byte : Bool) (ir : Word) (b : Kd11ea → Word) : M Next := do
  when ((dstOf ir).addrMode ≠ 0) (addrdest bus (dstOf ir) byte)
  let b ← look b
  clvNz b
  storeWhole bus byte (dstOf ir) b
  svc

def sxt (ir : Word) : M Next :=
  storeFlags bus false ir fun cpu => if (CC.ofPsw cpu.psw).n then 0o177777 else 0

def mfps (ir : Word) : M Next := storeFlags bus true ir fun cpu => cpu.psw.sxt

/-- `switch(cpu->ir & 0007700)`. -/
def unary (ir : Word) : Option (M Next) :=
  let byte := byteOf ir
  let op := ir &&& 0o007700
  if op = 0o005000 then some (unaryOp bus byte ir (fun _ _ cc => Alu.clr cc) true)
  else if op = 0o005100 then some (unaryOp bus byte ir (fun sr _ cc => Alu.com sr cc) true)
  else if op = 0o005200 then some (unaryOp bus byte ir (fun sr _ cc => Alu.inc byte sr cc) true)
  else if op = 0o005300 then some (unaryOp bus byte ir (fun sr _ cc => Alu.dec byte sr cc) true)
  else if op = 0o005400 then some (unaryOp bus byte ir (fun sr _ cc => Alu.neg byte sr cc) true)
  else if op = 0o005500 then some (unaryOp bus byte ir (fun sr _ cc => Alu.adc byte sr cc) true)
  else if op = 0o005600 then some (unaryOp bus byte ir (fun sr _ cc => Alu.sbc byte sr cc) true)
  else if op = 0o005700 then some (unaryOp bus byte ir (fun sr _ cc => Alu.tst sr cc) false)
  else if op = 0o006000 then some (unaryOp bus byte ir (fun sr _ cc => Alu.ror byte sr cc) true)
  else if op = 0o006100 then some (unaryOp bus byte ir (fun sr _ cc => Alu.rol byte sr cc) true)
  else if op = 0o006200 then some (unaryOp bus byte ir (fun sr _ cc => Alu.asr byte sr cc) true)
  else if op = 0o006300 then some (unaryOp bus byte ir (fun sr _ cc => Alu.asl byte sr cc) true)
  else if op = 0o006400 then some (if byte then mtps bus ir else mark bus ir)
  else if op = 0o006500 then some (mfpi bus ir)
  else if op = 0o006600 then some (mtpi bus ir)
  else if op = 0o006700 then some (if byte then mfps bus ir else sxt bus ir)
  else none

/-! ## Jumps, branches and the rest -/

def jsr (ir : Word) : M Next :=
  if (dstOf ir).addrMode = 0 then ill
  else do
    let sf := (srcOf ir).reg
    addrdest bus (dstOf ir) false
    update fun cpu => cpu.setR 9 cpu.ba
    push false
    outSp bus (·.r sf)
    update fun cpu => cpu.setR sf (cpu.r 7)
    update fun cpu => cpu.setR 7 (cpu.r 9)
    svc

/-- `switch(cpu->ir & 0107400)`. -/
def calls (ir : Word) : Option (M Next) :=
  let op := ir &&& 0o107400
  if op = 0o004000 ∨ op = 0o004400 then some (jsr bus ir)
  else if op = 0o104000 then some (pure (.trap 0o30))
  else if op = 0o104400 then some (pure (.trap 0o34))
  else none

/-- The condition mask of `CBR` for a branch opcode. -/
def branchMask (op : Word) : Word :=
  if op = 0o001000 then 0x0F0F
  else if op = 0o001400 then 0xF0F0
  else if op = 0o002000 then 0xCC33
  else if op = 0o002400 then 0x33CC
  else if op = 0o003000 then 0x0C03
  else if op = 0o003400 then 0xF3FC
  else if op = 0o100000 then 0x00FF
  else if op = 0o100400 then 0xFF00
  else if op = 0o101000 then 0x0505
  else if op = 0o101400 then 0xFAFA
  else if op = 0o102000 then 0x3333
  else if op = 0o102400 then 0xCCCC
  else if op = 0o103000 then 0x5555
  else 0xAAAA

/-- `BR` and `CBR(c)`. -/
def branch (ir : Word) : M Next := do
  let op := ir &&& 0o103400
  update fun cpu =>
    if op = 0o000400 ∨ Alu.branchTaken (branchMask op) cpu.psw then
      cpu.setR 7 (cpu.r 7 + Alu.branchOffset ir)
    else cpu
  svc

/-- The branches: all sixteen opcodes but 0. -/
def branches (ir : Word) : Option (M Next) :=
  if ir &&& 0o074000 = 0 ∧ ir &&& 0o103400 ≠ 0 then some (branch ir) else none

def jmp (ir : Word) : M Next :=
  if (dstOf ir).addrMode = 0 then ill
  else do
    addrdest bus (dstOf ir) false
    update fun cpu => cpu.setR 7 cpu.ba
    svc

def rts (ir : Word) : M Next := do
  let df := (dstOf ir).reg
  update fun cpu => { cpu with ba := cpu.r 6 }
  pop
  update fun cpu => cpu.setR 7 (cpu.r df)
  dati bus false
  update fun cpu => cpu.setR df cpu.bdata
  svc

/-- The condition code operators: clear, respectively set, the codes selected by `ir<3:0>`. -/
def ccop (ir : Word) (value : Bool) : M Next := do
  setCC fun cpu =>
    CC.ofPsw (Word.setmask cpu.psw (if value then 0o177777 else 0) (ir &&& 0o17))
  svc

def swab (ir : Word) : M Next :=
  unaryOp bus (byteOf ir) ir (fun _ dr cc => Alu.swab true dr cc) true

/-- `switch(cpu->ir & 0777300)`. -/
def misc (ir : Word) : Option (M Next) :=
  let op := ir &&& 0o177300
  if op = 0o100 then some (jmp bus ir)
  else if op = 0o200 then
    let sub := ir &&& 0o70
    if sub = 0 then some (rts bus ir)
    else if sub = 0o10 ∨ sub = 0o20 ∨ sub = 0o30 then some ri
    else some (ccop ir (sub = 0o60 ∨ sub = 0o70))
  else if op = 0o300 then some (swab bus ir)
  else none

/-- `HALT`, which is for kernel mode only. -/
def halt : M Next := fun m =>
  if m.cpu.isKernel then .ok .ret (m.mapCpu ({ · with state := .halted }))
  else ri m

def wait : M Next := do
  update ({ · with state := .waiting })
  return .ret

/-- The PSW `RTI` and `RTT` load: outside kernel mode neither mode nor priority change. -/
def rtiPsw (cpu : Kd11ea) (b : Word) : Word :=
  if cpu.isKernel then b
  else (b &&& ~~~(0o170000 ||| pswPr)) ||| (cpu.psw &&& (0o170000 ||| pswPr))

/-- `RTI` and `RTT`, the former taking a pending trace trap right away. -/
def rti (ir : Word) : M Next := do
  let pc ← popWord bus
  update fun cpu => cpu.setR 7 pc
  let b ← popWord bus
  let b' ← look fun cpu => rtiPsw cpu b
  modify fun m => m.setPsw (rtiPsw m.cpu b)
  return .service (ir == 2 && b'.getLsbD 4)

/-- `RESET`, which outside kernel mode does nothing. -/
def resetOp : M Next := do
  modify fun m => if m.cpu.isKernel then m.reset.onBus .busInit else m
  svc

/-- `switch(cpu->ir)`. -/
def operate (ir : Word) : Option (M Next) :=
  if ir = 0 then some halt
  else if ir = 1 then some wait
  else if ir = 2 ∨ ir = 6 then some (rti bus ir)
  else if ir = 3 then some (pure (.trap 0o14))
  else if ir = 4 then some (pure (.trap 0o20))
  else if ir = 5 then some resetOp
  else none

/-- The instruction `ir`, the groups in the order of the source. -/
def execute (ir : Word) : M Next :=
  (binary bus ir <|> eis bus ir <|> unary bus ir <|> calls bus ir <|> branches ir
    <|> misc bus ir <|> operate bus ir).getD ri

end QUniBone.Kd11ea
