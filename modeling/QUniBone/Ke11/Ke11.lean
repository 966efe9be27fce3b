import Mathlib.Data.BitVec
import Mathlib.Logic.Function.Basic
import Mathlib.Tactic.Common

/-!
# KE11-A

`ke11_c`: the arithmetic element. Each of its registers has flipflops that a DATI reads and others
that a DATO writes; in between are AC, MQ, the status SR and the step counter SC.

* `Reg`, `Access`, `State`: the registers, and what the device keeps.
* `writeRegister`: one operation for each register.
* `Op`, `apply`: accesses from the bus, and resets.
-/

namespace QUniBone.KE11

/-- `registers[]` -/
inductive Reg
  | DIV
  | AC
  | MQ
  | MUL
  | SCSR
  | NOR
  | LSH
  | ASH
  deriving DecidableEq

/-- `DATO_ACCESS` -/
inductive Access
  | word
  | byteL
  | byteH
  deriving DecidableEq

namespace Reg

def writableBits : Reg → BitVec 16
  | .NOR => 0
  | _ => 0o177777

def activeOnDati : Reg → Bool
  | .DIV | .MUL | .LSH | .ASH => true
  | _ => false

end Reg

/-! ## Status bits -/

abbrev SR_C : BitVec 8 := 0x1
abbrev SR_SXT : BitVec 8 := 0x2
abbrev SR_Z : BitVec 8 := 0x4
abbrev SR_MQZ : BitVec 8 := 0x8
abbrev SR_ACZ : BitVec 8 := 0x10
abbrev SR_ACM1 : BitVec 8 := 0x20
abbrev SR_N : BitVec 8 := 0x40
abbrev SR_NXV : BitVec 8 := 0x80
abbrev SR_DYN : BitVec 8 := SR_SXT ||| SR_Z ||| SR_MQZ ||| SR_ACZ ||| SR_ACM1

structure State where
  ac : BitVec 16
  mq : BitVec 16
  sr : BitVec 8
  sc : BitVec 8
  /-- `active_dati_flipflops` -/
  dati : Reg → BitVec 16
  /-- `active_dato_flipflops` -/
  dato : Reg → BitVec 16

/-- The bits that describe AC and MQ. -/
def dynamicBits (ac mq : BitVec 16) : BitVec 8 :=
  (if mq = 0 then SR_MQZ else 0) |||
  (if ac = 0 then
    SR_ACZ ||| (if mq.msb = false then SR_SXT else 0) ||| (if mq = 0 then SR_Z else 0) else 0) |||
  (if ac = 0o177777 then SR_ACM1 ||| (if mq.msb = true then SR_SXT else 0) else 0)

namespace State

def setRegisterDatiValue (s : State) (r : Reg) (value : BitVec 16) : State :=
  { s with dati := Function.update s.dati r value }

def updateAC (s : State) : State := s.setRegisterDatiValue .AC s.ac

def updateMQ (s : State) : State := s.setRegisterDatiValue .MQ s.mq

def updateSCSR (s : State) : State :=
  let sr := s.sr &&& ~~~SR_DYN ||| dynamicBits s.ac s.mq
  { s with sr := sr }.setRegisterDatiValue .SCSR (sr ++ s.sc)

/-- The three calls at the end of an operation. -/
def update (s : State) : State := s.updateAC.updateMQ.updateSCSR

/-- `reset_controller()` -/
def resetController (s : State) : State :=
  { s with ac := 0, mq := 0, sr := 0, sc := 0, dati := fun _ => 0 }

end State

/-! ## Operations -/

/-- The operand of DIV and MUL: the low byte alone is sign extended. -/
def operand (access : Access) (value : BitVec 16) : BitVec 16 :=
  if access = .byteL ∧ value.getLsbD 7 = true then value ||| 0o177400 else value

/-- `(_ac << 16) | _mq` -/
def State.acmq (s : State) : BitVec 32 := s.ac ++ s.mq

/-- `abs()`, as `uint32_t` -/
def absd (x : BitVec 32) : ℕ := x.toInt.natAbs

def DIV (s : State) (access : Access) : State :=
  let div := operand access (s.dato .DIV)
  let absr := div.toInt.natAbs
  if absd s.acmq / 2 ^ 16 ≥ absr then
    let same := !(s.ac ^^^ div).msb
    let shifted := s.ac <<< 1 ||| s.mq >>> 15
    let ac := if same then shifted - div else shifted + div
    let mq := s.mq <<< 1 ||| (if same then 1 else 0)
    let sr := (if (ac ^^^ div).msb = false then SR_C else 0) ||| SR_NXV
    { s with
      ac := ac
      mq := mq
      sc := 15
      sr := if mq.msb then sr ^^^ (SR_N ||| SR_NXV) else sr }.update
  else
    let quo := s.acmq.toInt.tdiv div.toInt
    let mq := BitVec.ofInt 16 quo
    let sr := if quo > 32767 ∨ quo < -32768 then SR_NXV else 0
    { s with
      ac := BitVec.ofInt 16 (s.acmq.toInt.tmod div.toInt)
      mq := mq
      sc := 0
      sr := if mq.msb then sr ^^^ (SR_N ||| SR_NXV) else sr }.update

def AC (s : State) (access : Access) : State :=
  { s with ac := operand access (s.dato .AC) }.updateAC.updateSCSR

def MQ (s : State) (access : Access) : State :=
  let mq := operand access (s.dato .MQ)
  { s with mq := mq, ac := if mq.msb then 0o177777 else 0 }.update

def MUL (s : State) (access : Access) : State :=
  let product := BitVec.ofInt 32 (s.mq.toInt * (operand access (s.dato .MUL)).toInt)
  let ac := product.extractLsb' 16 16
  { s with
    ac := ac
    mq := product.extractLsb' 0 16
    sc := 0
    sr := if ac.msb then SR_N ||| SR_NXV else 0 }.update

/-- Only a word is accepted. -/
def SCSR (s : State) (access : Access) : State :=
  if access = .word then
    let value := s.dato .SCSR &&& 0o140777
    ({ s with
      sr := value.extractLsb' 8 8
      sc := value.extractLsb' 0 8 }.setRegisterDatiValue .SCSR value).setRegisterDatiValue .NOR
        (value &&& 0xff)
  else s

/-- The break of the loop: AC bits 15 and 14 differ, or the next shift loses the sign. -/
def Normalized (ac mq : BitVec 16) : Prop := (ac = 0o140000 ∧ mq = 0) ∨ (ac ^^^ ac <<< 1).msb = true

instance decidableNormalized (ac mq : BitVec 16) : Decidable (Normalized ac mq) :=
  inferInstanceAs (Decidable (_ ∨ _))

/-- The loop, with so many rounds to go. -/
def shiftLoop : ℕ → State → State
  | 0, s => s
  | n + 1, s =>
    if Normalized s.ac s.mq then s
    else
      shiftLoop n { s with
        ac := s.ac <<< 1 ||| s.mq >>> 15
        mq := s.mq <<< 1
        sc := s.sc + 1 }

def NOR (s : State) : State :=
  let t := shiftLoop 31 { s with sc := 0 }
  { t with sr := if t.ac.msb then SR_N ||| SR_NXV else 0 }.update

/-- `-sign` -/
def signWord (sign : Bool) : BitVec 32 := if sign then BitVec.allOnes 32 else 0

/-- V and C after a left shift: are the bits lost those of the sign, and what was the last one? -/
def lostBits (sout t32 : BitVec 32) : BitVec 8 :=
  (if sout ≠ signWord t32.msb then SR_NXV else 0) ||| if sout.getLsbD 0 then SR_C else 0

/-- C after a right shift -/
def lastBit (t32 : BitVec 32) (count : ℕ) : BitVec 8 :=
  if (t32.sshiftRight (63 - count)).getLsbD 0 then SR_C else 0

/-- The result of a shift, and the flags. -/
def State.shifted (s : State) (t32 : BitVec 32) (sr : BitVec 8) : State :=
  let ac := t32.extractLsb' 16 16
  { s with
    ac := ac
    mq := t32.extractLsb' 0 16
    sc := 0
    sr := if ac.msb then sr ^^^ (SR_N ||| SR_NXV) else sr }.update

def LSH (s : State) : State :=
  let lsh := (s.dato .LSH &&& 0o77).toNat
  let sign := signWord s.ac.msb
  if lsh = 0 then s.shifted s.acmq 0
  else if lsh < 32 then
    let t32 := s.acmq <<< lsh
    s.shifted t32 (lostBits (s.acmq.sshiftRight (32 - lsh) ||| sign <<< lsh) t32)
  else
    s.shifted (if lsh ≠ 32 then s.acmq >>> (64 - lsh) else 0) (lastBit s.acmq lsh)

def ASH (s : State) : State :=
  let ash := (s.dato .ASH &&& 0o77).toNat
  let sign := signWord s.ac.msb
  if ash = 0 then s.shifted s.acmq 0
  else if ash < 32 then
    let t32 := s.acmq &&& 0o20000000000 ||| s.acmq <<< ash &&& 0o17777777777
    s.shifted t32 (lostBits (s.acmq.sshiftRight (31 - ash) ||| sign <<< ash) t32)
  else
    s.shifted (if ash ≠ 32 then s.acmq >>> (64 - ash) ||| sign <<< (ash - 32) else sign)
      (lastBit s.acmq ash)

/-- `write_register()` -/
def writeRegister (s : State) (r : Reg) (access : Access) : State :=
  match r with
  | .DIV => DIV s access
  | .AC => AC s access
  | .MQ => MQ s access
  | .MUL => MUL s access
  | .SCSR => SCSR s access
  | .NOR => NOR s
  | .LSH => LSH s
  | .ASH => ASH s

/-! ## Accesses -/

inductive Op
  | dati (r : Reg)
  /-- a byte comes in its half of the word -/
  | dato (r : Reg) (access : Access) (data : BitVec 16)
  | reset

/-- The flipflops after a write: a byte leaves the other half. -/
def written (old data : BitVec 16) : Access → BitVec 16
  | .word => data
  | .byteH => old &&& 0x00ff ||| data &&& 0xff00
  | .byteL => old &&& 0xff00 ||| data &&& 0x00ff

def State.latch (s : State) (r : Reg) (access : Access) (data : BitVec 16) : State :=
  { s with
    dato := Function.update s.dato r (written (s.dato r) (data &&& r.writableBits) access) }

def apply (s : State) : Op → State
  | .dati r => if r.activeOnDati then s.setRegisterDatiValue r 0 else s
  | .dato r access data => writeRegister (s.latch r access data) r access
  | .reset => s.resetController

def State.initial : State where
  ac := 0
  mq := 0
  sr := 0
  sc := 0
  dati _ := 0
  dato _ := 0

/-- The state after accesses, the last one first. -/
def after : List Op → State
  | [] => .initial
  | op :: ops => apply (after ops) op

end QUniBone.KE11
