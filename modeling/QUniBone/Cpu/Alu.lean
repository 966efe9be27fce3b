import QUniBone.Cpu.Core

/-!
# The arithmetic of the instruction set

Both cores compute their results and condition codes with the same text, `ka11.c` being what
`kd11ea.c` was forked from. Each operation here is the part of one `case` of `step()` between
the operand fetch and the write: it takes the source and destination operand registers
`SR`, `DR` and the old condition codes, and gives the result `b`, a 32 bit `uint`, with the
new codes. `byte` is the local `by`.
-/

namespace QUniBone.Alu

/-- What an operation leaves behind: the `uint b` and the condition codes. -/
abbrev Result := UInt × CC

/-- Widen an operand register to `uint`. -/
def wide (w : Word) : UInt := w.setWidth 32

/-- `BXT`: in a byte instruction, sign extend the low byte of `b`. -/
def bxt (byte : Bool) (b : UInt) : UInt :=
  if byte then wide (Word.ofUInt b).sxt else b

/-- `b & 0200000`: the carry out of a 16 bit sum. -/
def carry (b : UInt) : Bool := b.getLsbD 16

/-- `NZ`: set N and Z from the low 16 bits of `b`. -/
def nz (b : UInt) (cc : CC) : Result := (b, cc.setnz (Word.ofUInt b))

/-! ## Double operand group -/

def mov (sr : Word) (cc : CC) : Result :=
  nz (wide sr) { cc with v := false }

def cmp (byte : Bool) (sr dr : Word) (cc : CC) : Result :=
  let b := wide sr + wide (~~~dr) + 1
  let c := !carry b
  let b := bxt byte b
  nz b { cc with v := ((sr ^^^ dr) &&& ~~~(dr ^^^ Word.ofUInt b)).sgn, c := c }

def bit (sr dr : Word) (cc : CC) : Result :=
  nz (wide (dr &&& sr)) { cc with v := false }

def bic (sr dr : Word) (cc : CC) : Result :=
  nz (wide (dr &&& ~~~sr)) { cc with v := false }

def bis (sr dr : Word) (cc : CC) : Result :=
  nz (wide (dr ||| sr)) { cc with v := false }

def add (sr dr : Word) (cc : CC) : Result :=
  let b := wide sr + wide dr
  nz b { cc with v := (~~~(sr ^^^ dr) &&& (dr ^^^ Word.ofUInt b)).sgn, c := carry b }

def sub (sr dr : Word) (cc : CC) : Result :=
  let b := wide dr + wide (~~~sr) + 1
  nz b { cc with v := ((sr ^^^ dr) &&& (dr ^^^ Word.ofUInt b)).sgn, c := !carry b }

/-! ## Single operand group -/

def clr (cc : CC) : Result := nz 0 cc.clcv

def com (sr : Word) (cc : CC) : Result :=
  nz (wide (~~~sr)) { cc with v := false, c := true }

def inc (byte : Bool) (sr : Word) (cc : CC) : Result :=
  let b := bxt byte (wide (sr + 1))
  nz b { cc with v := (~~~sr &&& Word.ofUInt b).sgn }

def dec (byte : Bool) (sr : Word) (cc : CC) : Result :=
  let b := bxt byte (wide (sr - 1))
  nz b { cc with v := (sr &&& ~~~(Word.ofUInt b)).sgn }

def neg (byte : Bool) (sr : Word) (cc : CC) : Result :=
  let b := bxt byte (wide (~~~sr + 1))
  nz b { cc with v := (Word.ofUInt b &&& sr).sgn, c := b != 0 }

def adc (byte : Bool) (sr : Word) (cc : CC) : Result :=
  let b := wide sr + (if cc.c then 1 else 0)
  let c := carry b
  let b := bxt byte b
  nz b { cc with v := (~~~sr &&& Word.ofUInt b).sgn, c := c }

def sbc (byte : Bool) (sr : Word) (cc : CC) : Result :=
  let b := bxt byte (wide (if cc.c then sr - 1 else sr))
  nz b { cc with v := (sr &&& ~~~(Word.ofUInt b)).sgn, c := cc.c && sr == 0 }

def tst (sr : Word) (cc : CC) : Result := nz (wide sr) cc.clcv

/-- `if((PSW>>3^PSW)&1) SEV`, after `CLCV`, `SEC` and `NZ`: V is N exclusive or C. -/
def shiftV (r : Result) : Result := (r.1, { r.2 with v := r.2.n != r.2.c })

def ror (byte : Bool) (sr : Word) (cc : CC) : Result :=
  let mask : Word := if byte then 0o377 else 0o177777
  let sign : Word := if byte then 0o200 else 0o100000
  let b := ((sr &&& mask) >>> 1) ||| (if cc.c then sign else 0)
  shiftV (nz (bxt byte (wide b)) { cc.clcv with c := sr.odd })

def rol (byte : Bool) (sr : Word) (cc : CC) : Result :=
  let mask : Word := if byte then 0o377 else 0o177777
  let b := ((sr <<< 1) &&& mask) ||| (if cc.c then 1 else 0)
  shiftV (nz (bxt byte (wide b)) { cc.clcv with c := sr.sgn })

def asr (byte : Bool) (sr : Word) (cc : CC) : Result :=
  let b := (sr >>> 1) ||| (sr &&& 0o100000)
  shiftV (nz (bxt byte (wide b)) { cc.clcv with c := sr.odd })

def asl (byte : Bool) (sr : Word) (cc : CC) : Result :=
  shiftV (nz (bxt byte (wide (sr <<< 1))) { cc.clcv with c := sr.sgn })

/-- `SWAB`: N and Z describe the new low byte; `vbit` tells whether V is cleared. -/
def swab (vbit : Bool) (dr : Word) (cc : CC) : Result :=
  let b : Word := ((dr &&& 0o377) <<< 8) ||| ((dr >>> 8) &&& 0o377)
  (wide b, { n := b.getLsbD 7, z := b &&& 0o377 == 0,
             v := if vbit then false else cc.v, c := false })

/-! ## Branches -/

/-- `CBR(c)`: is the branch whose condition mask is `c` taken with these codes? -/
def branchTaken (c : Word) (psw : Word) : Bool :=
  (c >>> (psw &&& 0o17).toNat).getLsbD 0

/-- `br = sxt(ir)<<1`: the branch offset. -/
def branchOffset (ir : Word) : Word := ir.sxt <<< 1

/-! ## Extended instruction set -/

/-- A result of the extended instruction set, a register pair: high word, low word. -/
abbrev Pair := Word × Word

/-- `MUL`: the signed product, with C telling that it does not fit a word. -/
def mul (dr reg : Word) : UInt × CC :=
  let prod : UInt := dr.signExtend 32 * reg.signExtend 32
  (prod, { n := prod.getLsbD 31, z := prod == 0, v := false,
           c := prod.toInt < -32768 || 32767 < prod.toInt })

/-- `DIV` of the pair `hi:lo` by `dr`. `none`: the registers keep their values. -/
def div (dr hi lo : Word) : Option Pair × CC :=
  let dv := dr.toInt
  let prod := (wide hi <<< 16 ||| wide lo).toInt
  if dr = 0 then
    (none, { n := false, z := false, v := true, c := true })
  else
    let quot := prod.tdiv dv
    let rem := prod.tmod dv
    let q : Word := BitVec.ofInt 16 quot
    let fits := -32768 ≤ quot ∧ quot ≤ 32767
    (if fits then some (q, BitVec.ofInt 16 rem) else none,
      { n := q.sgn, z := q == 0, v := !fits, c := false })

/-- The left shift loop of `ASH`, one bit a round. C is the bit shifted out last, V tells
that the sign changed in some round. -/
def ashLeft : ℕ → UInt → CC → UInt × CC
  | 0, b, cc => (b, cc)
  | sh + 1, b, cc =>
      let ob := b ^^^ (b <<< 1)
      ashLeft sh (b <<< 1)
        { cc with c := b.getLsbD 15, v := cc.v || ob.getLsbD 15 }

/-- `ASH`: shift `reg` by the signed 6 bit count in `dr`. -/
def ash (dr reg : Word) (cc : CC) : Word × CC :=
  let cc : CC := { cc with n := false, z := false, v := false }
  let sh := (dr &&& 0o77).toNat
  if 32 ≤ sh then
    -- shift right: the sign gets shifted in
    let sh := 64 - sh
    let mask : Word := if reg.sgn then 0o177777 else 0
    if 17 ≤ sh then
      (mask, { cc with c := reg.sgn }.setnz mask)
    else
      let c := reg.getLsbD (sh - 1)
      let b := (reg >>> sh) ||| (mask <<< (16 - sh))
      (b, { cc with c := c }.setnz b)
  else if sh = 0 then
    (reg, cc.setnz reg)
  else if 17 ≤ sh then
    (0, { cc with v := reg != 0, c := false, z := true })
  else
    let (b, cc) := ashLeft sh (wide reg) cc
    (Word.ofUInt b, cc.setnz (Word.ofUInt b))

/-- The left shift loop of `ASHC`, one bit a round. -/
def ashcLeft : ℕ → UInt → CC → UInt × CC
  | 0, val, cc => (val, cc)
  | sh + 1, val, cc =>
      let ob := val ^^^ (val <<< 1)
      ashcLeft sh (val <<< 1)
        { cc with c := val.getLsbD 31, v := cc.v || ob.getLsbD 31 }

/-- `ASHC`: shift the pair `hi:lo` by the signed 6 bit count in `dr`. -/
def ashc (dr hi lo : Word) (cc : CC) : UInt × CC :=
  let cc : CC := { cc with n := false, z := false, v := false }
  let val := wide hi <<< 16 ||| wide lo
  let sh := (dr &&& 0o77).toNat
  let (val, cc) : UInt × CC :=
    if 32 ≤ sh then
      let sh := 64 - sh
      let msk : UInt := if val.getLsbD 31 then 0xffffffff else 0
      if 32 ≤ sh then
        (msk, { cc with c := val.getLsbD 31 })
      else
        ((val >>> sh) ||| (msk <<< (32 - sh)), { cc with c := val.getLsbD (sh - 1) })
    else
      ashcLeft sh val cc
  (val, { cc with z := val == 0, n := val.getLsbD 31 })

/-- `XOR`. -/
def xor (dr reg : Word) (cc : CC) : Result :=
  nz (wide (dr ^^^ reg)) { cc with v := false }

end QUniBone.Alu
