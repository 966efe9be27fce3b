import QUniBone.Cpu.Alu

/-!
# Results and condition codes on exact operands

`step()` evaluates its byte instructions on sign extended words, in a 32 bit accumulator. Here
the operations of the double and the single operand group are stated on operands of the width
the instruction names, and the two are shown to agree.

* `Op.exact`: result and condition codes on exact operands, carry and overflow being those of
  the width.
* `Op.code`: the same operation as the source evaluates it.
* `code_exact`: the accumulator holds the sign extension of the exact result, and the
  condition codes are the exact ones.
-/

namespace QUniBone.Alu

/-- How many bits the operands of a byte or word instruction have. -/
abbrev width : Bool → ℕ
  | true => 8
  | false => 16

/-- An operand as an operand register holds it. -/
def sx {byte : Bool} (a : BitVec (width byte)) : Word := a.signExtend 16

/-- The operations of the double operand group, then those of the single operand group. -/
inductive Op where
  | mov
  | cmp
  | bit
  | bic
  | bis
  | add
  | sub
  | clr
  | com
  | inc
  | dec
  | neg
  | adc
  | sbc
  | tst
  | ror
  | rol
  | asr
  | asl
  | swab
deriving DecidableEq

namespace Op

/-- Of the double operand group. -/
def double : Op → Bool
  | mov | cmp | bit | bic | bis | add | sub => true
  | _ => false

/-- With a byte form. -/
def hasByte : Op → Bool
  | add | sub | swab => false
  | _ => true

/-- With a result to store. -/
def stores : Op → Bool
  | cmp | bit | tst => false
  | _ => true

end Op

/-! ## The exact operations -/

section

variable {w : ℕ}

/-- N and Z tell about the result. -/
def tested (result : BitVec w) (v c : Bool) : BitVec w × CC :=
  (result, ⟨result.msb, result == 0, v, c⟩)

/-- Shifts and rotates: V is N exclusive or C. -/
def shifted (result : BitVec w) (c : Bool) : BitVec w × CC :=
  tested result (result.msb != c) c

/-- C as a number. -/
def carryIn (w : ℕ) (cc : CC) : BitVec w := if cc.c then 1 else 0

/-- Result and condition codes for operands of `w` bits. The rotates turn the `w + 1` bits of C
and the operand. -/
def Op.exact (op : Op) (src dst : BitVec w) (cc : CC) : BitVec w × CC :=
  match op with
  | mov => tested src false cc.c
  | cmp => tested (src - dst) (src.ssubOverflow dst) (src.usubOverflow dst)
  | bit => tested (dst &&& src) false cc.c
  | bic => tested (dst &&& ~~~src) false cc.c
  | bis => tested (dst ||| src) false cc.c
  | add => tested (dst + src) (dst.saddOverflow src) (dst.uaddOverflow src)
  | sub => tested (dst - src) (dst.ssubOverflow src) (dst.usubOverflow src)
  | clr => tested 0 false false
  | com => tested (~~~dst) false true
  | inc => tested (dst + 1) (dst.saddOverflow 1) cc.c
  | dec => tested (dst - 1) (dst.ssubOverflow 1) cc.c
  | neg => tested (-dst) ((0#w).ssubOverflow dst) ((0#w).usubOverflow dst)
  | adc =>
      tested (dst + carryIn w cc) (dst.saddOverflow (carryIn w cc))
        (dst.uaddOverflow (carryIn w cc))
  | sbc =>
      tested (dst - carryIn w cc) (dst.ssubOverflow (carryIn w cc))
        (dst.usubOverflow (carryIn w cc))
  | tst => tested dst false false
  | ror =>
      let turned := (BitVec.cons cc.c dst).rotateRight 1
      shifted (turned.setWidth w) turned.msb
  | rol =>
      let turned := (BitVec.cons cc.c dst).rotateLeft 1
      shifted (turned.setWidth w) turned.msb
  | asr => shifted (dst.sshiftRight 1) (dst.getLsbD 0)
  | asl => shifted (dst <<< 1) dst.msb
  | swab =>
      let turned := dst.rotateLeft 8
      (turned, ⟨turned.getLsbD 7, turned.setWidth 8 == 0, false, false⟩)

end

/-! ## The operations of the source -/

/-- The part of a `case` of `step()` between operand fetch and write. -/
def Op.code (op : Op) (byte : Bool) : Word → Word → CC → Result :=
  match op with
  | mov => fun sr _ cc => Alu.mov sr cc
  | cmp => Alu.cmp byte
  | bit => Alu.bit
  | bic => Alu.bic
  | bis => Alu.bis
  | add => Alu.add
  | sub => Alu.sub
  | clr => fun _ _ cc => Alu.clr cc
  | com => fun sr _ cc => Alu.com sr cc
  | inc => fun sr _ cc => Alu.inc byte sr cc
  | dec => fun sr _ cc => Alu.dec byte sr cc
  | neg => fun sr _ cc => Alu.neg byte sr cc
  | adc => fun sr _ cc => Alu.adc byte sr cc
  | sbc => fun sr _ cc => Alu.sbc byte sr cc
  | tst => fun sr _ cc => Alu.tst sr cc
  | ror => fun sr _ cc => Alu.ror byte sr cc
  | rol => fun sr _ cc => Alu.rol byte sr cc
  | asr => fun sr _ cc => Alu.asr byte sr cc
  | asl => fun sr _ cc => Alu.asl byte sr cc
  | swab => fun _ dr cc => Alu.swab true dr cc

/-- What the source computes is what the exact operation gives. -/
def Agrees {byte : Bool} (r : Result) (e : BitVec (width byte) × CC) : Prop :=
  Word.ofUInt r.1 = sx e.1 ∧ r.2 = e.2

variable {byte : Bool}

/-! ## Sign extended operands -/

theorem sx_word (a : BitVec (width false)) : sx a = a := BitVec.signExtend_eq a

theorem width_le (byte : Bool) : width byte ≤ 16 := by cases byte <;> decide

@[simp] theorem ofUInt_wide (v : Word) : Word.ofUInt (wide v) = v := by
  simp [Word.ofUInt, wide]

theorem setWidth_sx (a : BitVec (width byte)) : (sx a).setWidth (width byte) = a := by
  apply BitVec.eq_of_getLsbD_eq
  intro i hi
  have := width_le byte
  simp only [sx, BitVec.getLsbD_setWidth, BitVec.getLsbD_signExtend]
  simp [hi, show i < 16 by omega]

theorem ofUInt_bxt (b : UInt) : Word.ofUInt (bxt byte b) = sx (b.setWidth (width byte)) := by
  cases byte with
  | false => simp [bxt, sx, Word.ofUInt]
  | true =>
      have hlow : (Word.ofUInt b).setWidth 8 = b.setWidth 8 := by simp [Word.ofUInt]
      rw [bxt, if_pos rfl, ofUInt_wide, Word.sxt, hlow]
      rfl

theorem sgn_eq_msb (v : Word) : v.sgn = v.msb := rfl

@[simp] theorem sgn_and (v u : Word) : (v &&& u).sgn = (v.sgn && u.sgn) := BitVec.getLsbD_and
@[simp] theorem sgn_xor (v u : Word) : (v ^^^ u).sgn = (v.sgn ^^ u.sgn) := BitVec.getLsbD_xor
@[simp] theorem sgn_not (v : Word) : (~~~v).sgn = !v.sgn := by simp [Word.sgn]

@[simp] theorem sgn_sx (a : BitVec (width byte)) : (sx a).sgn = a.msb := by
  rw [sgn_eq_msb, sx, BitVec.msb_signExtend]
  cases byte with
  | false => simp [BitVec.msb]
  | true => simp [width]

theorem sx_inj {a b : BitVec (width byte)} : sx a = sx b ↔ a = b := by
  constructor
  · intro h
    rw [← setWidth_sx a, h, setWidth_sx]
  · exact congrArg sx

theorem sx_zero : sx (0 : BitVec (width byte)) = 0 := by
  cases byte <;> rfl

theorem sx_eq_zero {a : BitVec (width byte)} : sx a = 0 ↔ a = 0 := by
  rw [← sx_inj, sx_zero]

theorem toNat_sx (a : BitVec (width byte)) :
    (sx a).toNat = a.toNat + if a.msb then 65536 - 2 ^ width byte else 0 := by
  rw [sx, BitVec.toNat_signExtend]
  have := a.isLt
  cases byte with
  | false => simp
  | true =>
      simp only [width, BitVec.toNat_setWidth]
      simp only [width] at this
      split <;> omega

theorem carry_eq {b : UInt} (h : b.toNat < 131072) : carry b = decide (65536 ≤ b.toNat) := by
  rw [carry, BitVec.getLsbD, Nat.testBit_eq_decide_div_mod_eq]
  congr 1
  rw [eq_iff_iff]
  omega

theorem agrees_nz {b : UInt} {cc : CC} {result : BitVec (width byte)} {v c : Bool}
    (h : Word.ofUInt b = sx result) (hv : cc.v = v) (hc : cc.c = c) :
    Agrees (nz b cc) (tested result v c) := by
  have hz : (sx result == 0) = (result == 0) := by
    rw [Bool.eq_iff_iff, beq_iff_eq, beq_iff_eq, sx_eq_zero]
  refine ⟨h, ?_⟩
  subst hv hc
  simp only [nz, tested, CC.setnz, h, sgn_sx, hz]

theorem agrees_shiftV {b : UInt} {cc : CC} {result : BitVec (width byte)} {c : Bool}
    (h : Word.ofUInt b = sx result) (hc : cc.c = c) :
    Agrees (shiftV (nz b cc)) (shifted result c) := by
  have hcodes : (nz b cc).2 = (tested result cc.v c).2 := (agrees_nz h rfl hc).2
  refine ⟨h, ?_⟩
  rw [shiftV, hcodes]
  rfl

theorem sx_and (a b : BitVec (width byte)) : sx (a &&& b) = sx a &&& sx b :=
  BitVec.signExtend_and

theorem sx_or (a b : BitVec (width byte)) : sx (a ||| b) = sx a ||| sx b :=
  BitVec.signExtend_or

theorem sx_not (a : BitVec (width byte)) : sx (~~~a) = ~~~sx a :=
  BitVec.signExtend_not (by cases byte <;> decide)


theorem low_wide (v : Word) : (wide v).setWidth (width byte) = v.setWidth (width byte) := by
  have := width_le byte
  exact BitVec.setWidth_setWidth_of_le v (by omega)

theorem low_add (byte : Bool) (v u : UInt) :
    (v + u).setWidth (width byte) = v.setWidth (width byte) + u.setWidth (width byte) :=
  BitVec.setWidth_add v u (by have := width_le byte; omega)


theorem toNat_wide (v : Word) : (wide v).toNat = v.toNat := by
  simp only [wide, BitVec.toNat_setWidth]
  have := v.isLt
  omega

theorem low_word_add (byte : Bool) (v u : Word) :
    (v + u).setWidth (width byte) = v.setWidth (width byte) + u.setWidth (width byte) :=
  BitVec.setWidth_add v u (width_le byte)

theorem low_word_sub (v u : Word) :
    (v - u).setWidth (width byte) = v.setWidth (width byte) - u.setWidth (width byte) := by
  have h := low_word_add byte (v - u) u
  rw [BitVec.sub_add_cancel] at h
  rw [h, BitVec.add_sub_cancel]

theorem wide_eq_zero {v : Word} : wide v = 0 ↔ v = 0 := by
  constructor
  · intro h
    rw [← ofUInt_wide v, h]
    rfl
  · rintro rfl
    rfl

theorem bxt_wide (v : Word) : bxt byte (wide v) = wide (sx (v.setWidth (width byte))) := by
  cases byte with
  | false => simp [bxt, sx, width]
  | true => simp [bxt, sx, width, Word.sxt]

theorem getLsbD_sx (a : BitVec (width byte)) (i : ℕ) :
    (sx a).getLsbD i = (decide (i < 16) && if i < width byte then a.getLsbD i else a.msb) :=
  BitVec.getLsbD_signExtend a

/-- Bit 0 of the register is bit 0 of the operand. -/
theorem odd_sx (a : BitVec (width byte)) : (sx a).odd = a.getLsbD 0 := by
  rw [Word.odd, getLsbD_sx]
  cases byte <;> rfl

/-! ## Double operand group -/

theorem mov_agrees (a b : BitVec (width byte)) (cc : CC) :
    Agrees (Alu.mov (sx a) cc) (Op.mov.exact a b cc) :=
  agrees_nz (ofUInt_wide _) rfl rfl

theorem bit_agrees (a b : BitVec (width byte)) (cc : CC) :
    Agrees (Alu.bit (sx a) (sx b) cc) (Op.bit.exact a b cc) :=
  agrees_nz (by rw [ofUInt_wide, sx_and]) rfl rfl

theorem bic_agrees (a b : BitVec (width byte)) (cc : CC) :
    Agrees (Alu.bic (sx a) (sx b) cc) (Op.bic.exact a b cc) :=
  agrees_nz (by rw [ofUInt_wide, sx_and, sx_not]) rfl rfl

theorem bis_agrees (a b : BitVec (width byte)) (cc : CC) :
    Agrees (Alu.bis (sx a) (sx b) cc) (Op.bis.exact a b cc) :=
  agrees_nz (by rw [ofUInt_wide, sx_or]) rfl rfl

/-- Adding the complement and one, as `CMP` and `SUB` do, is a subtraction at each width. -/
theorem low_sub (a b : BitVec (width byte)) :
    (wide (sx a) + wide (~~~sx b) + 1).setWidth (width byte) = a - b := by
  have hone : (1 : UInt).setWidth (width byte) = 1 := by cases byte <;> rfl
  rw [low_add, low_add, low_wide, low_wide, ← sx_not, setWidth_sx, setWidth_sx, hone,
    BitVec.sub_eq_add_neg, BitVec.neg_eq_not_add, BitVec.add_assoc]
  rfl

/-- The borrow of the 16 bit subtraction is that of the operands. -/
theorem not_carry_sub (a b : BitVec (width byte)) :
    (!carry (wide (sx a) + wide (~~~sx b) + 1)) = a.usubOverflow b := by
  have hsum : (wide (sx a) + wide (~~~sx b) + 1).toNat
      = (sx a).toNat + (65536 - (sx b).toNat) := by
    have ha := (sx a).isLt
    have hb := (sx b).isLt
    rw [BitVec.toNat_add, BitVec.toNat_add, toNat_wide, toNat_wide, BitVec.toNat_not]
    simp only [BitVec.ofNat_eq_ofNat, BitVec.toNat_ofNat]
    omega
  have hlt : (sx a).toNat < (sx b).toNat ↔ a.toNat < b.toNat := by
    rw [toNat_sx, toNat_sx, BitVec.msb_eq_decide, BitVec.msb_eq_decide]
    have ha := a.isLt
    have hb := b.isLt
    cases byte with
    | false => simp [width]
    | true =>
        simp only [width] at ha hb ⊢
        simp only [decide_eq_true_eq]
        split <;> split <;> omega
  have ha := (sx a).isLt
  have hb := (sx b).isLt
  rw [carry_eq (by omega), hsum, BitVec.usubOverflow, Bool.eq_iff_iff]
  simp only [Bool.not_eq_true', decide_eq_false_iff_not, decide_eq_true_eq]
  omega

theorem cmp_agrees (a b : BitVec (width byte)) (cc : CC) :
    Agrees (Alu.cmp byte (sx a) (sx b) cc) (Op.cmp.exact a b cc) := by
  have hres : Word.ofUInt (bxt byte (wide (sx a) + wide (~~~sx b) + 1)) = sx (a - b) := by
    rw [ofUInt_bxt, low_sub]
  refine agrees_nz hres ?_ (not_carry_sub a b)
  show ((sx a ^^^ sx b) &&& ~~~(sx b ^^^ Word.ofUInt (bxt byte _))).sgn = _
  rw [hres, BitVec.ssubOverflow_eq]
  simp only [sgn_and, sgn_xor, sgn_not, sgn_sx]
  cases a.msb <;> cases b.msb <;> cases (a - b).msb <;> rfl

theorem add_agrees (a b : BitVec (width false)) (cc : CC) :
    Agrees (Alu.add (sx a) (sx b) cc) (Op.add.exact a b cc) := by
  have hres : Word.ofUInt (wide (sx a) + wide (sx b)) = sx (b + a) := by
    have h := low_add false (wide (sx a)) (wide (sx b))
    rw [low_wide, low_wide, setWidth_sx, setWidth_sx] at h
    rw [sx_word (b + a), BitVec.add_comm b, ← h]
    rfl
  refine agrees_nz hres ?_ ?_
  · show (~~~(sx a ^^^ sx b) &&& (sx b ^^^ Word.ofUInt (wide (sx a) + wide (sx b)))).sgn = _
    rw [hres, BitVec.saddOverflow_eq]
    simp only [sgn_and, sgn_xor, sgn_not, sgn_sx]
    cases a.msb <;> cases b.msb <;> cases (b + a).msb <;> rfl
  · show carry (wide (sx a) + wide (sx b)) = _
    have ha := a.isLt
    have hb := b.isLt
    have hsum : (wide (sx a) + wide (sx b)).toNat = a.toNat + b.toNat := by
      rw [BitVec.toNat_add, toNat_wide, toNat_wide, sx_word, sx_word]
      simp only [width] at ha hb
      omega
    simp only [width] at ha hb
    rw [carry_eq (by omega), hsum, BitVec.uaddOverflow, Bool.eq_iff_iff]
    simp only [decide_eq_true_eq, width]
    omega

theorem sub_agrees (a b : BitVec (width false)) (cc : CC) :
    Agrees (Alu.sub (sx a) (sx b) cc) (Op.sub.exact a b cc) := by
  have hres : Word.ofUInt (wide (sx b) + wide (~~~sx a) + 1) = sx (b - a) := by
    rw [← low_sub]
    exact (sx_word _).symm
  refine agrees_nz hres ?_ (not_carry_sub b a)
  show ((sx a ^^^ sx b) &&& (sx b ^^^ Word.ofUInt _)).sgn = _
  rw [hres, BitVec.ssubOverflow_eq]
  simp only [sgn_and, sgn_xor, sgn_sx]
  cases a.msb <;> cases b.msb <;> cases (b - a).msb <;> rfl

/-! ## Single operand group -/

theorem com_agrees (a : BitVec (width byte)) (cc : CC) :
    Agrees (Alu.com (sx a) cc) (Op.com.exact a a cc) :=
  agrees_nz (by rw [ofUInt_wide, sx_not]) rfl rfl

theorem clr_agrees (a : BitVec (width byte)) (cc : CC) :
    Agrees (Alu.clr cc) (Op.clr.exact a a cc) :=
  agrees_nz sx_zero.symm rfl rfl

theorem tst_agrees (a : BitVec (width byte)) (cc : CC) :
    Agrees (Alu.tst (sx a) cc) (Op.tst.exact a a cc) :=
  agrees_nz (ofUInt_wide _) rfl rfl

theorem low_one (byte : Bool) : (1 : Word).setWidth (width byte) = 1 := by cases byte <;> rfl

theorem msb_one (byte : Bool) : (1 : BitVec (width byte)).msb = false := by cases byte <;> rfl

theorem msb_zero (byte : Bool) : (0 : BitVec (width byte)).msb = false := by cases byte <;> rfl

theorem inc_agrees (a : BitVec (width byte)) (cc : CC) :
    Agrees (Alu.inc byte (sx a) cc) (Op.inc.exact a a cc) := by
  have hres : Word.ofUInt (bxt byte (wide (sx a + 1))) = sx (a + 1) := by
    rw [ofUInt_bxt, low_wide, low_word_add, setWidth_sx, low_one]
  refine agrees_nz hres ?_ rfl
  show (~~~sx a &&& Word.ofUInt (bxt byte _)).sgn = _
  rw [hres, BitVec.saddOverflow_eq, msb_one]
  simp only [sgn_and, sgn_not, sgn_sx]
  cases a.msb <;> cases (a + 1).msb <;> rfl

theorem dec_agrees (a : BitVec (width byte)) (cc : CC) :
    Agrees (Alu.dec byte (sx a) cc) (Op.dec.exact a a cc) := by
  have hres : Word.ofUInt (bxt byte (wide (sx a - 1))) = sx (a - 1) := by
    rw [ofUInt_bxt, low_wide, low_word_sub, setWidth_sx, low_one]
  refine agrees_nz hres ?_ rfl
  show (sx a &&& ~~~Word.ofUInt (bxt byte _)).sgn = _
  rw [hres, BitVec.ssubOverflow_eq, msb_one]
  simp only [sgn_and, sgn_not, sgn_sx]
  cases a.msb <;> cases (a - 1).msb <;> rfl

theorem neg_agrees (a : BitVec (width byte)) (cc : CC) :
    Agrees (Alu.neg byte (sx a) cc) (Op.neg.exact a a cc) := by
  have hlow : (~~~sx a + 1).setWidth (width byte) = -a := by
    rw [low_word_add, low_one, ← sx_not, setWidth_sx, BitVec.neg_eq_not_add]
    rfl
  have hb : bxt byte (wide (~~~sx a + 1)) = wide (sx (-a)) := by
    rw [bxt_wide, hlow]
  refine agrees_nz (by rw [hb, ofUInt_wide]) ?_ ?_
  · show (Word.ofUInt (bxt byte _) &&& sx a).sgn = _
    rw [hb, ofUInt_wide, BitVec.ssubOverflow_eq, BitVec.zero_sub, BitVec.msb_zero]
    simp only [sgn_and, sgn_sx]
    cases a.msb <;> cases (-a).msb <;> rfl
  · show (bxt byte (wide (~~~sx a + 1)) != 0) = _
    rw [hb, BitVec.usubOverflow, Bool.eq_iff_iff, bne_iff_ne, decide_eq_true_eq]
    have hzero : -a = 0 ↔ a = 0 := BitVec.neg_eq_zero_iff
    rw [Ne, wide_eq_zero, sx_eq_zero, hzero, ← BitVec.toNat_inj]
    show ¬ a.toNat = 0 ↔ 0 < a.toNat
    omega

theorem msb_carryIn (byte : Bool) (cc : CC) : (carryIn (width byte) cc).msb = false := by
  rw [carryIn]
  split
  · exact msb_one byte
  · exact msb_zero byte

theorem toNat_carryIn (byte : Bool) (cc : CC) :
    (carryIn (width byte) cc).toNat = if cc.c then 1 else 0 := by
  rw [carryIn]
  cases byte <;> split <;> rfl

theorem adc_agrees (a : BitVec (width byte)) (cc : CC) :
    Agrees (Alu.adc byte (sx a) cc) (Op.adc.exact a a cc) := by
  have hin : (if cc.c then 1 else 0 : UInt).setWidth (width byte) = carryIn (width byte) cc := by
    rw [carryIn]
    cases byte <;> split <;> rfl
  have hres : Word.ofUInt (bxt byte (wide (sx a) + (if cc.c then 1 else 0)))
      = sx (a + carryIn (width byte) cc) := by
    rw [ofUInt_bxt, low_add, low_wide, setWidth_sx, hin]
  refine agrees_nz hres ?_ ?_
  · show (~~~sx a &&& Word.ofUInt (bxt byte _)).sgn = _
    rw [hres, BitVec.saddOverflow_eq, msb_carryIn]
    simp only [sgn_and, sgn_not, sgn_sx]
    cases a.msb <;> cases (a + carryIn (width byte) cc).msb <;> rfl
  · show carry (wide (sx a) + (if cc.c then 1 else 0)) = _
    have hsum : (wide (sx a) + (if cc.c then 1 else 0)).toNat
        = (sx a).toNat + (if cc.c then 1 else 0) := by
      have ha := (sx a).isLt
      rw [BitVec.toNat_add, toNat_wide]
      split
      · show ((sx a).toNat + 1) % 2 ^ 32 = _
        omega
      · show ((sx a).toNat + 0) % 2 ^ 32 = _
        omega
    have ha := (sx a).isLt
    have hbit : (if cc.c then 1 else 0 : ℕ) ≤ 1 := by split <;> omega
    rw [carry_eq (by omega), hsum, BitVec.uaddOverflow, toNat_carryIn, toNat_sx, Bool.eq_iff_iff,
      decide_eq_true_iff, decide_eq_true_iff, BitVec.msb_eq_decide]
    have hlt := a.isLt
    cases byte with
    | false => simp [width]
    | true =>
        simp only [width, decide_eq_true_eq] at hlt ⊢
        split <;> omega

theorem sbc_agrees (a : BitVec (width byte)) (cc : CC) :
    Agrees (Alu.sbc byte (sx a) cc) (Op.sbc.exact a a cc) := by
  have hlow : (if cc.c then sx a - 1 else sx a).setWidth (width byte)
      = a - carryIn (width byte) cc := by
    rw [carryIn]
    split
    · rw [low_word_sub, setWidth_sx, low_one]
    · rw [setWidth_sx]
      exact (BitVec.sub_zero a).symm
  have hres : Word.ofUInt (bxt byte (wide (if cc.c then sx a - 1 else sx a)))
      = sx (a - carryIn (width byte) cc) := by
    rw [ofUInt_bxt, low_wide, hlow]
  refine agrees_nz hres ?_ ?_
  · show (sx a &&& ~~~Word.ofUInt (bxt byte _)).sgn = _
    rw [hres, BitVec.ssubOverflow_eq, msb_carryIn]
    simp only [sgn_and, sgn_not, sgn_sx]
    cases a.msb <;> cases (a - carryIn (width byte) cc).msb <;> rfl
  · show (cc.c && sx a == 0) = _
    rw [BitVec.usubOverflow, toNat_carryIn, Bool.eq_iff_iff]
    simp only [Bool.and_eq_true, beq_iff_eq, sx_eq_zero, decide_eq_true_eq]
    rw [← BitVec.toNat_inj]
    show cc.c = true ∧ a.toNat = 0 ↔ _
    cases cc.c
    · simp
    · simp

/-! ## Shifts and rotates -/

theorem asl_agrees (a : BitVec (width byte)) (cc : CC) :
    Agrees (Alu.asl byte (sx a) cc) (Op.asl.exact a a cc) := by
  have hlow : (sx a <<< 1).setWidth (width byte) = a <<< 1 := by
    apply BitVec.eq_of_getLsbD_eq
    intro i hi
    have := width_le byte
    rw [BitVec.getLsbD_setWidth, BitVec.getLsbD_shiftLeft, BitVec.getLsbD_shiftLeft, getLsbD_sx]
    simp only [hi, show i < 16 by omega, show i - 1 < 16 by omega, show i - 1 < width byte by omega,
      decide_true, Bool.true_and, if_true]
  exact agrees_shiftV (by rw [ofUInt_bxt, low_wide, hlow]) (sgn_sx a)

theorem getLsbD_signBit (i : ℕ) : (0o100000 : Word).getLsbD i = decide (i = 15) := by
  have h : (0o100000 : Word) = BitVec.twoPow 16 15 := by decide
  rw [h, BitVec.getLsbD_twoPow]
  simp only [Nat.reduceLT, decide_true, Bool.true_and, eq_comm]

theorem asr_agrees (a : BitVec (width byte)) (cc : CC) :
    Agrees (Alu.asr byte (sx a) cc) (Op.asr.exact a a cc) := by
  have hlow : ((sx a >>> 1) ||| (sx a &&& 0o100000)).setWidth (width byte)
      = a.sshiftRight 1 := by
    apply BitVec.eq_of_getLsbD_eq
    intro i hi
    have hle := width_le byte
    rw [BitVec.getLsbD_setWidth, BitVec.getLsbD_or, BitVec.getLsbD_and,
      BitVec.getLsbD_ushiftRight, BitVec.getLsbD_sshiftRight, getLsbD_sx, getLsbD_sx,
      getLsbD_signBit]
    simp only [hi, decide_true, Bool.true_and, if_true, show ¬ width byte ≤ i by omega,
      decide_false, Bool.not_false]
    by_cases hlast : i = 15
    · -- the sign of a word comes from the mask, nothing being shifted into it
      have hw : width byte = 16 := by omega
      subst hlast
      simp [hw, BitVec.msb_eq_getLsbD_last]
    · simp [hlast, show 1 + i < 16 by omega]
  refine agrees_shiftV (by rw [ofUInt_bxt, low_wide, hlow]) (odd_sx a)

/-- The operand in the low bits, zeros above. -/
theorem sx_and_mask (a : BitVec (width byte)) :
    sx a &&& (if byte then 0o377 else 0o177777) = a.setWidth 16 := by
  apply BitVec.eq_of_getLsbD_eq
  intro i hi
  have hmask : (if byte then 0o377 else 0o177777 : Word).getLsbD i = decide (i < width byte) := by
    cases byte <;> interval_cases i <;> rfl
  rw [BitVec.getLsbD_and, getLsbD_sx, hmask, BitVec.getLsbD_setWidth]
  by_cases hw : i < width byte
  · simp [hi, hw]
  · simp [hw, BitVec.getLsbD_of_ge a i (by omega)]

theorem turned_right (a : BitVec (width byte)) (c : Bool) {i : ℕ} (hi : i < width byte) :
    ((BitVec.cons c a).rotateRight 1).getLsbD i
      = if 1 + i = width byte then c else a.getLsbD (1 + i) := by
  have hone : 1 % (width byte + 1) = 1 := by cases byte <;> rfl
  have hlt : i < width byte + 1 - 1 := by omega
  rw [BitVec.getLsbD_rotateRight, hone, BitVec.getLsbD_cons, decide_eq_true hlt, cond_true]

theorem ror_agrees (a : BitVec (width byte)) (cc : CC) :
    Agrees (Alu.ror byte (sx a) cc) (Op.ror.exact a a cc) := by
  have hlow : (((sx a &&& (if byte then 0o377 else 0o177777)) >>> 1)
        ||| (if cc.c then (if byte then 0o200 else 0o100000) else 0) : Word).setWidth (width byte)
      = ((BitVec.cons cc.c a).rotateRight 1).setWidth (width byte) := by
    apply BitVec.eq_of_getLsbD_eq
    intro i hi
    have hsign : (if cc.c then (if byte then 0o200 else 0o100000) else 0 : Word).getLsbD i
        = (cc.c && decide (1 + i = width byte)) := by
      have hle := width_le byte
      cases byte <;> cases cc.c <;> simp only [width] at hi ⊢ <;> interval_cases i <;> rfl
    have hle := width_le byte
    rw [sx_and_mask, BitVec.getLsbD_setWidth, BitVec.getLsbD_or, BitVec.getLsbD_ushiftRight,
      BitVec.getLsbD_setWidth, hsign, BitVec.getLsbD_setWidth, turned_right a cc.c hi]
    by_cases hlast : 1 + i = width byte
    · simp [hi, hlast]
    · simp [hi, hlast, show 1 + i < 16 by omega]
  refine agrees_shiftV (by rw [ofUInt_bxt, low_wide, hlow]) ?_
  show (sx a).odd = _
  rw [odd_sx, BitVec.msb_rotateRight, BitVec.getMsbD_eq_getLsbD, BitVec.getLsbD_cons]
  cases byte <;> rfl

theorem rol_agrees (a : BitVec (width byte)) (cc : CC) :
    Agrees (Alu.rol byte (sx a) cc) (Op.rol.exact a a cc) := by
  have hlow : (((sx a <<< 1) &&& (if byte then 0o377 else 0o177777))
        ||| (if cc.c then 1 else 0) : Word).setWidth (width byte)
      = ((BitVec.cons cc.c a).rotateLeft 1).setWidth (width byte) := by
    apply BitVec.eq_of_getLsbD_eq
    intro i hi
    have hone : 1 % (width byte + 1) = 1 := by cases byte <;> rfl
    have hle := width_le byte
    have hmask : (if byte then 0o377 else 0o177777 : Word).getLsbD i = true := by
      cases byte <;> simp only [width] at hi <;> interval_cases i <;> rfl
    have hin : (if cc.c then 1 else 0 : Word).getLsbD i = (cc.c && decide (i = 0)) := by
      cases cc.c <;> simp [BitVec.getLsbD_one]
    rw [BitVec.getLsbD_setWidth, BitVec.getLsbD_or, BitVec.getLsbD_and, hmask, hin,
      BitVec.getLsbD_shiftLeft, getLsbD_sx, BitVec.getLsbD_setWidth, BitVec.getLsbD_rotateLeft,
      hone, BitVec.getLsbD_cons, BitVec.getLsbD_cons]
    by_cases hfirst : i = 0
    · subst hfirst
      simp [hi]
    · simp [hi, hfirst, show ¬ i < 1 by omega, show i < 16 by omega, show i - 1 < 16 by omega,
        show i - 1 < width byte by omega, show i < width byte + 1 by omega,
        show ¬ i - 1 = width byte by omega]
  refine agrees_shiftV (by rw [ofUInt_bxt, low_wide, hlow]) ?_
  show (sx a).sgn = _
  rw [sgn_sx, BitVec.msb_rotateLeft, BitVec.getMsbD_eq_getLsbD, BitVec.getLsbD_cons,
    BitVec.msb_eq_getLsbD_last]
  cases byte <;> rfl

theorem swab_agrees (a : BitVec (width false)) (cc : CC) :
    Agrees (Alu.swab true (sx a) cc) (Op.swab.exact a a cc) := by
  have hmask : ∀ j, (0o377 : Word).getLsbD j = decide (j < 8) := by
    intro j
    by_cases hj : j < 16
    · interval_cases j <;> rfl
    · rw [BitVec.getLsbD_of_ge _ _ (by omega)]
      simp
      omega
  have hb : (((sx a &&& 0o377) <<< 8) ||| ((sx a >>> 8) &&& 0o377) : Word) = a.rotateLeft 8 := by
    rw [sx_word]
    apply BitVec.eq_of_getLsbD_eq
    intro i hi
    rw [BitVec.getLsbD_or, BitVec.getLsbD_shiftLeft, BitVec.getLsbD_and, BitVec.getLsbD_and,
      BitVec.getLsbD_ushiftRight, hmask, hmask, BitVec.getLsbD_rotateLeft]
    by_cases h : i < 8
    · simp [h]
    · simp [h, hi]
      omega
  have hz : ∀ v : Word, (v &&& 0o377 == 0) = (v.setWidth 8 == 0) := by
    intro v
    have hlow : (v &&& 0o377).toNat = (v.setWidth 8).toNat := by
      rw [BitVec.toNat_and, BitVec.toNat_setWidth]
      exact Nat.and_two_pow_sub_one_eq_mod v.toNat 8
    rw [Bool.eq_iff_iff, beq_iff_eq, beq_iff_eq, ← BitVec.toNat_inj, hlow]
    show _ = (0#8).toNat ↔ _
    exact BitVec.toNat_inj
  refine ⟨?_, ?_⟩
  · show Word.ofUInt (wide _) = _
    rw [ofUInt_wide, hb, sx_word]
    rfl
  · simp only [Alu.swab, hb, hz, if_true]
    rfl

/-! ## All operations -/

/-- Result and condition codes of the source are the exact ones. A single operand operation
finds its operand in both operand registers. -/
theorem code_agrees (op : Op) (byte : Bool) (src dst : BitVec (width byte)) (cc : CC)
    (hbyte : op.hasByte = false → byte = false) (hsrc : op.double = false → src = dst) :
    Agrees (op.code byte (sx src) (sx dst) cc) (op.exact src dst cc) := by
  cases op with
  | mov => exact mov_agrees src dst cc
  | cmp => exact cmp_agrees src dst cc
  | bit => exact bit_agrees src dst cc
  | bic => exact bic_agrees src dst cc
  | bis => exact bis_agrees src dst cc
  | add =>
      cases hbyte rfl
      exact add_agrees src dst cc
  | sub =>
      cases hbyte rfl
      exact sub_agrees src dst cc
  | clr => exact clr_agrees dst cc
  | com => cases hsrc rfl; exact com_agrees src cc
  | inc => cases hsrc rfl; exact inc_agrees src cc
  | dec => cases hsrc rfl; exact dec_agrees src cc
  | neg => cases hsrc rfl; exact neg_agrees src cc
  | adc => cases hsrc rfl; exact adc_agrees src cc
  | sbc => cases hsrc rfl; exact sbc_agrees src cc
  | tst => cases hsrc rfl; exact tst_agrees src cc
  | ror => cases hsrc rfl; exact ror_agrees src cc
  | rol => cases hsrc rfl; exact rol_agrees src cc
  | asr => cases hsrc rfl; exact asr_agrees src cc
  | asl => cases hsrc rfl; exact asl_agrees src cc
  | swab =>
      cases hbyte rfl
      exact swab_agrees dst cc

end QUniBone.Alu
