import QUniBone.Cpu20.Ka11

/-!
# The KA11: instructions

The instruction part of `step()`. As for the KD11-EA, each `switch` of the source is one function,
and `execute` tries them in the order of the source.
-/

namespace QUniBone.Ka11

open Prog

/-- The label an instruction leaves for -/
inductive Next
  /-- `SVC` -/
  | service
  /-- `TRAP(v)` -/
  | trap (v : Word)
  /-- `return` -/
  | ret

/-- `SVC` -/
def svc : M Next := pure .service

/-- `goto ri` -/
def ri : M Next := pure (.trap 0o10)

/-- `goto ill` -/
def ill : M Next := pure (.trap 4)

/-! ## Shared steps -/

/-- `src` -/
def srcOf (ir : Word) : Word := (ir >>> 6) &&& 0o77

/-- `dst` -/
def dstOf (ir : Word) : Word := ir &&& 0o77

/-- `by` -/
def byteOf (ir : Word) : Bool := ir.sgn

/-- Set condition codes. -/
def setCC (f : Ka11 → CC) : M Unit :=
  update fun cpu => { cpu with psw := ((f cpu).store cpu.pswWord).setWidth 8 }

/-- An operation of the arithmetic unit on `SR` and `DR`: set the codes, give `b`. -/
def alu (op : Ka11 → CC → Alu.Result) : M UInt := do
  let result ← look fun cpu => op cpu (CC.ofPsw cpu.pswWord)
  setCC fun _ => result.2
  return result.1

/-- `PUSH` -/
def push (inhov : Bool) : M Unit := do
  update fun cpu => cpu.setR 6 (cpu.r 6 - 2)
  when (inhov = false) (update fun cpu => stackLimit cpu (cpu.r 6))

variable (bus : Bus)

/-- `OUT(SP, d)` -/
def outSp (d : Ka11 → Word) : M Unit := do
  update fun cpu => { cpu with ba := cpu.r 6, bdata := d cpu }
  dato bus false

/-- `PUSH; OUT(SP, d)` -/
def pushWord (inhov : Bool) (d : Ka11 → Word) : M Unit := do
  push inhov
  outSp bus d

/-- `BA = SP; POP; IN(d)`: the word popped -/
def popWord : M Word := do
  update fun cpu => { cpu with ba := cpu.r 6 }
  update fun cpu => cpu.setR 6 (cpu.r 6 + 2)
  dati bus false
  look (·.bdata)

/-- `RD_B`: memory operands first, then those in registers -/
def rdB (byte : Bool) (ir : Word) : M Unit := do
  when ((srcOf ir).addrMode ≠ 0) (readop bus 8 (srcOf ir) byte)
  when ((dstOf ir).addrMode ≠ 0) (readop bus 9 (dstOf ir) byte)
  when ((srcOf ir).addrMode = 0) (fetchop bus 8 (srcOf ir) byte)
  when ((dstOf ir).addrMode = 0) (fetchop bus 9 (dstOf ir) byte)

/-- `RD_U` -/
def rdU (byte : Bool) (ir : Word) : M Unit := do
  when ((dstOf ir).addrMode ≠ 0) (readop bus 9 (dstOf ir) byte)
  when ((dstOf ir).addrMode = 0) (fetchop bus 9 (dstOf ir) byte)
  update fun cpu => cpu.setR 8 (cpu.r 9)

/-- `WR` -/
def wr (b : UInt) (byte : Bool) : M Unit := writedest bus (Word.ofUInt b) byte

/-! ## Double operand group -/

/-- `RD_B`, the operation, and `WR` if it has a result to store -/
def binaryOp (byte : Bool) (ir : Word) (op : Word → Word → CC → Alu.Result) (write : Bool) :
    M Next := do
  rdB bus byte ir
  let b ← alu fun cpu => op (cpu.r 8) (cpu.r 9)
  when write (wr bus b byte)
  svc

/-- `MOV` writes a register as a whole, so the byte form extends the sign. -/
def storeWhole (byte : Bool) (dst v : Word) : M Unit :=
  if dst.addrMode = 0 then update fun cpu => cpu.setR dst.reg v else writedest bus v byte

def mov (byte : Bool) (ir : Word) : M Next := do
  rdB bus byte ir
  let _ ← alu fun cpu => Alu.mov (cpu.r 8)
  let sr ← look (·.r 8)
  storeWhole bus byte (dstOf ir) sr
  svc

/-- `switch(cpu->ir & 0170000)` -/
def binary (ir : Word) : Option (M Next) :=
  let byte := byteOf ir
  let op := ir &&& 0o170000
  if op = 0o110000 ∨ op = 0o010000 then some (mov bus byte ir)
  else if op = 0o120000 ∨ op = 0o020000 then some (binaryOp bus byte ir (Alu.cmp byte) false)
  else if op = 0o130000 ∨ op = 0o030000 then some (binaryOp bus byte ir Alu.bit false)
  else if op = 0o140000 ∨ op = 0o040000 then some (binaryOp bus byte ir Alu.bic true)
  else if op = 0o150000 ∨ op = 0o050000 then some (binaryOp bus byte ir Alu.bis true)
  else if op = 0o060000 then some (binaryOp bus false ir Alu.add true)
  else if op = 0o160000 then some (binaryOp bus false ir Alu.sub true)
  else if op = 0o170000 then some ri
  else if op = 0o070000 then some ri
  else none

/-! ## Single operand group -/

/-- `RD_U`, the operation on `SR`, and `WR` if it has a result to store -/
def unaryOp (byte : Bool) (ir : Word) (op : Word → CC → Alu.Result) (write : Bool) :
    M Next := do
  rdU bus byte ir
  let b ← alu fun cpu => op (cpu.r 8)
  when write (wr bus b byte)
  svc

/-- `switch(cpu->ir & 0007700)` -/
def unary (ir : Word) : Option (M Next) :=
  let byte := byteOf ir
  let op := ir &&& 0o007700
  if op = 0o005000 then some (unaryOp bus byte ir (fun _ cc => Alu.clr cc) true)
  else if op = 0o005100 then some (unaryOp bus byte ir Alu.com true)
  else if op = 0o005200 then some (unaryOp bus byte ir (Alu.inc byte) true)
  else if op = 0o005300 then some (unaryOp bus byte ir (Alu.dec byte) true)
  else if op = 0o005400 then some (unaryOp bus byte ir (Alu.neg byte) true)
  else if op = 0o005500 then some (unaryOp bus byte ir (Alu.adc byte) true)
  else if op = 0o005600 then some (unaryOp bus byte ir (Alu.sbc byte) true)
  else if op = 0o005700 then some (unaryOp bus byte ir Alu.tst false)
  else if op = 0o006000 then some (unaryOp bus byte ir (Alu.ror byte) true)
  else if op = 0o006100 then some (unaryOp bus byte ir (Alu.rol byte) true)
  else if op = 0o006200 then some (unaryOp bus byte ir (Alu.asr byte) true)
  else if op = 0o006300 then some (unaryOp bus byte ir (Alu.asl byte) true)
  else if op = 0o006400 ∨ op = 0o006500 ∨ op = 0o006600 ∨ op = 0o006700 then some ri
  else none

/-! ## Jumps, branches and the rest -/

/-- The B register is the address, incremented if the mode does that. -/
def jsr (ir : Word) : M Next :=
  if (dstOf ir).addrMode = 0 then ill
  else do
    let sf := (srcOf ir).reg
    addrop bus (dstOf ir) false
    update fun cpu => cpu.setR 9 cpu.b
    pushWord bus false (·.r sf)
    update fun cpu => cpu.setR sf (cpu.r 7)
    update fun cpu => cpu.setR 7 (cpu.r 9)
    svc

/-- `switch(cpu->ir & 0107400)` -/
def calls (ir : Word) : Option (M Next) :=
  let op := ir &&& 0o107400
  if op = 0o004000 ∨ op = 0o004400 then some (jsr bus ir)
  else if op = 0o104000 then some (pure (.trap 0o30))
  else if op = 0o104400 then some (pure (.trap 0o34))
  else none

/-- The condition mask of `CBR` for a branch opcode -/
def branchMask (op : Word) : Word :=
  if op = 0o001000 then 0x0F0F
  else if op = 0o001400 then 0xF0F0
  else if op = 0o002000 then 0xCC33
  else if op = 0o002400 then 0x33CC
  else if op = 0o003000 then 0x0C03
  else if op = 0o003400 then 0xF3FC
  else if op = 0o100000 then 0x00FF
  else if op = 0o100400 then 0xFF00
  else if op = 0o101000 then 0x0505
  else if op = 0o101400 then 0xFAFA
  else if op = 0o102000 then 0x3333
  else if op = 0o102400 then 0xCCCC
  else if op = 0o103000 then 0x5555
  else 0xAAAA

/-- `BR` and `CBR(c)` -/
def branch (ir : Word) : M Next := do
  let op := ir &&& 0o103400
  update fun cpu =>
    if op = 0o000400 ∨ Alu.branchTaken (branchMask op) cpu.pswWord then
      cpu.setR 7 (cpu.r 7 + Alu.branchOffset ir)
    else cpu
  svc

/-- The branches: all sixteen opcodes but 0 -/
def branches (ir : Word) : Option (M Next) :=
  if ir &&& 0o074000 = 0 ∧ ir &&& 0o103400 ≠ 0 then some (branch ir) else none

def jmp (ir : Word) : M Next :=
  if (dstOf ir).addrMode = 0 then ill
  else do
    addrop bus (dstOf ir) false
    update fun cpu => cpu.setR 7 cpu.b
    svc

def rts (ir : Word) : M Next := do
  let df := (dstOf ir).reg
  update fun cpu => { cpu with ba := cpu.r 6 }
  update fun cpu => cpu.setR 6 (cpu.r 6 + 2)
  update fun cpu => cpu.setR 7 (cpu.r df)
  dati bus false
  update fun cpu => cpu.setR df cpu.bdata
  svc

/-- Clear or set the codes selected by `ir<3:0>`. -/
def ccop (ir : Word) (value : Bool) : M Next := do
  setCC fun cpu =>
    CC.ofPsw (Word.setmask cpu.pswWord (if value then 0o177777 else 0) (ir &&& 0o17))
  svc

def swab (ir : Word) : M Next := do
  rdU bus (byteOf ir) ir
  let b ← alu fun cpu => Alu.swab cpu.swabVbit (cpu.r 9)
  wr bus b (byteOf ir)
  svc

/-- `switch(cpu->ir & 0777300)` -/
def misc (ir : Word) : Option (M Next) :=
  let op := ir &&& 0o177300
  if op = 0o100 then some (jmp bus ir)
  else if op = 0o200 then
    let sub := ir &&& 0o70
    if sub = 0 then some (rts bus ir)
    else if sub = 0o10 ∨ sub = 0o20 ∨ sub = 0o30 then some ri
    else some (ccop ir (sub = 0o60 ∨ sub = 0o70))
  else if op = 0o300 then some (swab bus ir)
  else none

def halt : M Next := do
  update ({ · with state := .halted })
  return .ret

def wait : M Next := do
  update ({ · with state := .waiting })
  return .ret

def rti : M Next := do
  let pc ← popWord bus
  update fun cpu => cpu.setR 7 pc
  let b ← popWord bus
  modify (·.loadPsw b)
  modify (·.levelchange)
  svc

def resetOp : M Next := do
  update reset
  modify (·.onBus .busInit)
  svc

/-- `switch(cpu->ir)` -/
def operate (ir : Word) : Option (M Next) :=
  if ir = 0 then some halt
  else if ir = 1 then some wait
  else if ir = 2 then some (rti bus)
  else if ir = 3 then some (pure (.trap 0o14))
  else if ir = 4 then some (pure (.trap 0o20))
  else if ir = 5 then some resetOp
  else none

/-- The instruction `ir`, the groups in the order of the source -/
def execute (ir : Word) : M Next :=
  (binary bus ir <|> unary bus ir <|> calls bus ir <|> branches ir <|> misc bus ir
    <|> operate bus ir).getD ri

end QUniBone.Ka11
