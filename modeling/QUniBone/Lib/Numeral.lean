import Mathlib.Data.Nat.Digits.Defs
import Mathlib.Data.List.TakeWhile
import Mathlib.Data.BitVec
import Mathlib.Tactic.Common

/-!
# Numerals

Integers as text: how the C library reads them, and how it prints them. A character stands for a
byte.

* `Denotes`: the integer that a text stands for, in a base of 2 to 36.
* `scan`, `strtol`: reading it. `denotes_iff`: all is read iff the text denotes an integer.
* `Format`, `Format.print`: one conversion of `printf`.
* `denotes_print`: what is printed denotes the value.
-/

namespace QUniBone.Numeral

abbrev Text := List Char

/-- `isspace()` -/
def isSpace (c : Char) : Bool := c = ' ' ∨ (0x09 ≤ c.toNat ∧ c.toNat ≤ 0x0d)

/-- The value of a digit or letter, and 36 for the other characters. -/
def digitValue (c : Char) : ℕ :=
  if 0x30 ≤ c.toNat ∧ c.toNat ≤ 0x39 then c.toNat - 0x30
  else if 0x61 ≤ c.toNat ∧ c.toNat ≤ 0x7a then c.toNat - 0x61 + 10
  else if 0x41 ≤ c.toNat ∧ c.toNat ≤ 0x5a then c.toNat - 0x41 + 10
  else 36

/-- The value of a row of digits -/
def digitsValue (base : ℕ) (ds : Text) : ℕ := Nat.ofDigits base (ds.reverse.map digitValue)

inductive Sign
  | none
  | plus
  | minus
  deriving DecidableEq

def Sign.text : Sign → Text
  | .none => []
  | .plus => ['+']
  | .minus => ['-']

def Sign.apply (s : Sign) (n : ℕ) : ℤ := if s = .minus then -n else n

/-- `0x`, which may stand before the digits of base 16 only -/
def IsMark (base : ℕ) (mark : Text) : Prop :=
  mark = [] ∨ base = 16 ∧ ∃ x, (x = 'x' ∨ x = 'X') ∧ mark = ['0', x]

/-- The whole text is one numeral for `v`: a sign, a mark and at least one digit. -/
def Denotes (base : ℕ) (text : Text) (v : ℤ) : Prop :=
  ∃ (sign : Sign) (mark ds : Text), text = sign.text ++ (mark ++ ds) ∧ IsMark base mark ∧
    ds ≠ [] ∧ (∀ c ∈ ds, digitValue c < base) ∧ v = sign.apply (digitsValue base ds)

/-! ## Reading -/

/-- The sign, and what is behind it -/
def scanSign : Text → Sign × Text
  | '-' :: t => (.minus, t)
  | '+' :: t => (.plus, t)
  | t => (.none, t)

/-- A mark is only skipped if a digit follows. -/
def skipMark (base : ℕ) : Text → Text
  | '0' :: x :: c :: t =>
    if base = 16 ∧ (x = 'x' ∨ x = 'X') ∧ digitValue c < base then c :: t else '0' :: x :: c :: t
  | t => t

/-- The integer at the beginning of the text, without a limit, and what follows it. Without a
digit nothing is read. -/
def scan (base : ℕ) (text : Text) : ℤ × Text :=
  let r := scanSign (text.dropWhile isSpace)
  let t := skipMark base r.2
  let ds := t.takeWhile (digitValue · < base)
  if ds = [] then (0, text)
  else (r.1.apply (ds.foldl (fun n c => n * base + digitValue c) 0),
    t.dropWhile (digitValue · < base))

/-- What lies outside of the range of a signed integer becomes its nearest limit. -/
def clip (bits : ℕ) (v : ℤ) : ℤ := max (-2 ^ (bits - 1)) (min v (2 ^ (bits - 1) - 1))

/-- `strtol()`, for a `long` of so many bits, and `strtoll()` -/
def strtol (bits base : ℕ) (text : Text) : ℤ × Text :=
  (clip bits (scan base text).1, (scan base text).2)

theorem digitsValue_eq_foldl (base : ℕ) (ds : Text) :
    digitsValue base ds = ds.foldl (fun n c => n * base + digitValue c) 0 := by
  induction ds using List.reverseRecOn with
  | nil => rfl
  | append_singleton ds c ih =>
    rw [List.foldl_concat, ← ih, digitsValue, List.reverse_concat, List.map_cons,
      Nat.ofDigits_cons, digitsValue, Nat.add_comm, Nat.mul_comm]

/-- No digit is a sign. -/
theorem scanSign_of_digit {c : Char} (hc : digitValue c < 36) (t : Text) :
    scanSign (c :: t) = (.none, c :: t) := by
  unfold scanSign
  split
  · next heq =>
    obtain ⟨rfl, -⟩ := List.cons.inj heq
    exact absurd hc (by decide)
  · next heq =>
    obtain ⟨rfl, -⟩ := List.cons.inj heq
    exact absurd hc (by decide)
  · rfl

theorem scanSign_text (t : Text) : t = (scanSign t).1.text ++ (scanSign t).2 := by
  unfold scanSign
  split <;> rfl

/-- A mark, and the rest -/
theorem exists_mark (base : ℕ) (t : Text) :
    ∃ mark, IsMark base mark ∧ t = mark ++ skipMark base t := by
  unfold skipMark
  split
  · next x c t =>
    split
    · next h => exact ⟨['0', x], .inr ⟨h.1, x, h.2.1, rfl⟩, rfl⟩
    · exact ⟨[], .inl rfl, rfl⟩
  · exact ⟨[], .inl rfl, rfl⟩

/-- A row of digits does not begin with a mark, as `x` is no digit of base 16. -/
theorem skipMark_digits {base : ℕ} {ds : Text} (h : ∀ c ∈ ds, digitValue c < base) :
    skipMark base ds = ds := by
  unfold skipMark
  split
  · next x c t =>
    rw [if_neg]
    rintro ⟨rfl, rfl | rfl, -⟩
    · exact absurd (h 'x' (by simp)) (by decide)
    · exact absurd (h 'X' (by simp)) (by decide)
  · rfl

theorem skipMark_append {base : ℕ} {mark ds : Text} (hmark : IsMark base mark) (hne : ds ≠ [])
    (h : ∀ c ∈ ds, digitValue c < base) : skipMark base (mark ++ ds) = ds := by
  obtain rfl | ⟨hbase, x, hx, rfl⟩ := hmark
  · exact skipMark_digits h
  · obtain ⟨c, t, rfl⟩ := List.exists_cons_of_ne_nil hne
    show skipMark base ('0' :: x :: c :: t) = c :: t
    rw [skipMark, if_pos ⟨hbase, hx, h c (by simp)⟩]

theorem digitValue_zero : digitValue '0' = 0 := by decide

/-- The sign of a numeral is found. -/
theorem scanSign_numeral {base : ℕ} (hbase : base ≤ 36) {mark ds : Text}
    (hmark : IsMark base mark) (hne : ds ≠ []) (h : ∀ c ∈ ds, digitValue c < base) (s : Sign) :
    scanSign (s.text ++ (mark ++ ds)) = (s, mark ++ ds) := by
  cases s with
  | none =>
    show scanSign (mark ++ ds) = (.none, mark ++ ds)
    obtain rfl | ⟨-, x, -, rfl⟩ := hmark
    · obtain ⟨c, t, rfl⟩ := List.exists_cons_of_ne_nil hne
      exact scanSign_of_digit (by have := h c (by simp); omega) t
    · exact scanSign_of_digit (by rw [digitValue_zero]; decide) (x :: ds)
  | plus => rfl
  | minus => rfl

theorem scan_of_denotes {base : ℕ} (hbase : base ≤ 36) {text : Text} {v : ℤ}
    (hspace : ∀ c ∈ text, isSpace c = false) (h : Denotes base text v) :
    scan base text = (v, []) := by
  obtain ⟨s, mark, ds, htext, hmark, hne, hdigits, rfl⟩ := h
  have hblank : text.dropWhile isSpace = text :=
    List.dropWhile_eq_self_iff.mpr fun hlen => by simp [hspace _ (List.getElem_mem hlen)]
  have htake : ds.takeWhile (digitValue · < base) = ds :=
    List.takeWhile_eq_self_iff.mpr fun c hc => decide_eq_true (hdigits c hc)
  have hdrop : ds.dropWhile (digitValue · < base) = [] :=
    List.dropWhile_eq_nil_iff.mpr fun c hc => decide_eq_true (hdigits c hc)
  rw [scan, hblank, htext, scanSign_numeral hbase hmark hne hdigits,
    skipMark_append hmark hne hdigits, htake, hdrop, if_neg hne, digitsValue_eq_foldl]

/-- All of a text is read iff it denotes an integer. -/
theorem denotes_iff {base : ℕ} (hbase : base ≤ 36) {text : Text} (hne : text ≠ [])
    (hspace : ∀ c ∈ text, isSpace c = false) {v : ℤ} :
    Denotes base text v ↔ scan base text = (v, []) := by
  refine ⟨scan_of_denotes hbase hspace, fun h => ?_⟩
  have hblank : text.dropWhile isSpace = text :=
    List.dropWhile_eq_self_iff.mpr fun hlen => by simp [hspace _ (List.getElem_mem hlen)]
  rw [scan, hblank] at h
  split at h
  · -- without a digit nothing is read
    exact absurd (Prod.mk.inj h).2 hne
  · next hdigit =>
    obtain ⟨hv, hrest⟩ := Prod.mk.inj h
    obtain ⟨mark, hmark, hsplit⟩ := exists_mark base (scanSign text).2
    have hall := List.dropWhile_eq_nil_iff.mp hrest
    have htake := List.takeWhile_eq_self_iff.mpr hall
    rw [htake] at hv hdigit
    refine ⟨(scanSign text).1, mark, skipMark base (scanSign text).2, ?_, hmark, hdigit,
      fun c hc => of_decide_eq_true (hall c hc), ?_⟩
    · rw [← hsplit]
      exact scanSign_text text
    · rw [← hv, digitsValue_eq_foldl]

theorem Denotes.eq {base : ℕ} (hbase : base ≤ 36) {text : Text}
    (hspace : ∀ c ∈ text, isSpace c = false) {v w : ℤ} (hv : Denotes base text v)
    (hw : Denotes base text w) : v = w := by
  have h := (scan_of_denotes hbase hspace hv).symm.trans (scan_of_denotes hbase hspace hw)
  exact (Prod.mk.inj h).1

theorem not_denotes_nil (base : ℕ) (v : ℤ) : ¬ Denotes base [] v := by
  rintro ⟨s, mark, ds, htext, -, hne, -⟩
  exact hne (List.append_eq_nil_iff.mp (List.append_eq_nil_iff.mp htext.symm).2).2

/-- A sign alone is no numeral. -/
theorem scan_sign (base : ℕ) (s : Sign) : (scan base s.text).1 = 0 := by
  cases s with
  | none => rfl
  | plus => rfl
  | minus => rfl

/-- A numeral has no zero character. -/
theorem Denotes.ne_zero {base : ℕ} (hbase : base ≤ 36) {text : Text} {v : ℤ}
    (h : Denotes base text v) : ∀ c ∈ text, c ≠ '\x00' := by
  obtain ⟨s, mark, ds, rfl, hmark, -, hdigits, -⟩ := h
  intro c hc
  rw [List.mem_append, List.mem_append] at hc
  obtain hc | hc | hc := hc
  · cases s <;> simp [Sign.text] at hc <;> rw [hc] <;> decide
  · obtain rfl | ⟨-, x, hx, rfl⟩ := hmark
    · exact absurd hc (List.not_mem_nil)
    · rw [List.mem_cons, List.mem_singleton] at hc
      obtain rfl | rfl := hc
      · decide
      · obtain rfl | rfl := hx <;> decide
  · rintro rfl
    have hlt := hdigits _ hc
    exact absurd hlt (by rw [show digitValue '\x00' = 36 from by decide]; omega)

/-! ## Printing -/

inductive Conversion
  /-- signed decimal -/
  | d
  | u
  | o
  | x
  | X
  deriving DecidableEq

def Conversion.base : Conversion → ℕ
  | .d | .u => 10
  | .o => 8
  | .x | .X => 16

/-- One conversion specification of `printf`. -/
structure Format where
  /-- the flags `-`, `+`, ` `, `#` and `0` -/
  left : Bool
  plus : Bool
  space : Bool
  alternate : Bool
  zero : Bool
  width : ℕ
  precision : Option ℕ
  conversion : Conversion

namespace Format

variable {W : ℕ}

/-- What the conversion takes the argument for. -/
def value (f : Format) (v : BitVec W) : ℤ := if f.conversion = .d then v.toInt else v.toNat

def sign (f : Format) (v : BitVec W) : Text :=
  if f.conversion = .d then
    if v.toInt < 0 then ['-'] else if f.plus then ['+'] else if f.space then [' '] else []
  else []

/-- `0x` -/
def mark (f : Format) (v : BitVec W) : Text :=
  if f.alternate = true ∧ v.toNat ≠ 0 then
    if f.conversion = .x then ['0', 'x'] else if f.conversion = .X then ['0', 'X'] else []
  else []

/-- The character for a digit below 16 -/
def digitChar (f : Format) (n : ℕ) : Char :=
  if f.conversion = .X then Char.toUpper (Nat.digitChar n) else Nat.digitChar n

/-- The precision is the least number of digits, 1 if there is none. -/
def digits (f : Format) (v : BitVec W) : Text :=
  let ds := ((Nat.digits f.conversion.base (f.value v).natAbs).map f.digitChar).reverse
  let ds := List.replicate (f.precision.getD 1 - ds.length) '0' ++ ds
  -- the other form of an octal number begins with a zero
  if f.alternate = true ∧ f.conversion = .o ∧ ds.head? ≠ some '0' then '0' :: ds else ds

/-- What is printed, less the width -/
def body (f : Format) (v : BitVec W) : Text := f.sign v ++ (f.mark v ++ f.digits v)

def print (f : Format) (v : BitVec W) : Text :=
  let fill := f.width - (f.body v).length
  if f.left then f.body v ++ List.replicate fill ' '
  else if f.zero = true ∧ f.precision = none then
    f.sign v ++ (f.mark v ++ (List.replicate fill '0' ++ f.digits v))
  else List.replicate fill ' ' ++ f.body v

theorem length_print (f : Format) (v : BitVec W) :
    (f.print v).length = max f.width (f.body v).length := by
  unfold print
  split
  · rw [List.length_append, List.length_replicate]
    omega
  · split
    · simp only [body, List.length_append, List.length_replicate]
      omega
    · rw [List.length_append, List.length_replicate]
      omega

/-- The row of digits, before the sign and the mark -/
structure Row (base n : ℕ) (ds : Text) : Prop where
  digit : ∀ c ∈ ds, digitValue c < base
  value : digitsValue base ds = n

theorem Row.zero {base n : ℕ} (hbase : 0 < base) {ds : Text} (h : Row base n ds) :
    Row base n ('0' :: ds) where
  digit c hc := by
    rw [List.mem_cons] at hc
    obtain rfl | hc := hc
    · rw [digitValue_zero]
      exact hbase
    · exact h.digit c hc
  value := by
    rw [digitsValue, List.reverse_cons, List.map_append, Nat.ofDigits_append,
      show List.map digitValue ['0'] = [0] from rfl, Nat.ofDigits_singleton, Nat.mul_zero,
      Nat.add_zero]
    exact h.value

theorem Row.zeros {base n : ℕ} (hbase : 0 < base) {ds : Text} (h : Row base n ds) (k : ℕ) :
    Row base n (List.replicate k '0' ++ ds) := by
  induction k with
  | zero => exact h
  | succ k ih => exact ih.zero hbase

theorem Row.not_isSpace {base n : ℕ} (hbase : base ≤ 36) {ds : Text} (h : Row base n ds) :
    ∀ c ∈ ds, isSpace c = false := by
  intro c hc
  have hlt := h.digit c hc
  unfold digitValue at hlt
  simp only [isSpace, decide_eq_false_iff_not, not_or]
  refine ⟨?_, by split_ifs at hlt <;> omega⟩
  rintro rfl
  exact absurd hlt (by simpa using hbase)

theorem Row.eq_zero {base n : ℕ} (h : Row base n []) : n = 0 := h.value.symm

theorem digitValue_digitChar (f : Format) {n : ℕ} (h : n < f.conversion.base) :
    digitValue (f.digitChar n) = n := by
  have hn : n < 16 := h.trans_le (by cases f.conversion <;> decide)
  have hlower : ∀ n < 16, digitValue (Nat.digitChar n) = n := by decide
  have hupper : ∀ n < 16, digitValue (Char.toUpper (Nat.digitChar n)) = n := by decide
  unfold digitChar
  split
  · exact hupper n hn
  · exact hlower n hn

theorem base_pos (c : Conversion) : 1 < c.base := by cases c <;> decide

theorem base_le (c : Conversion) : c.base ≤ 36 := by cases c <;> decide

theorem row_digits (f : Format) (v : BitVec W) :
    Row f.conversion.base (f.value v).natAbs (f.digits v) := by
  have hlt : ∀ n ∈ Nat.digits f.conversion.base (f.value v).natAbs, n < f.conversion.base :=
    fun n hn => Nat.digits_lt_base (base_pos _) hn
  have hrow : Row f.conversion.base (f.value v).natAbs
      ((Nat.digits f.conversion.base (f.value v).natAbs).map f.digitChar).reverse := by
    constructor
    · intro c hc
      rw [List.mem_reverse, List.mem_map] at hc
      obtain ⟨n, hn, rfl⟩ := hc
      rw [digitValue_digitChar f (hlt n hn)]
      exact hlt n hn
    · have hmap : (Nat.digits f.conversion.base (f.value v).natAbs).map (digitValue ∘ f.digitChar) =
          Nat.digits f.conversion.base (f.value v).natAbs := by
        refine (List.map_congr_left fun n hn => ?_).trans (List.map_id _)
        exact digitValue_digitChar f (hlt n hn)
      rw [digitsValue, List.reverse_reverse, List.map_map, hmap, Nat.ofDigits_digits]
  have hpos : 0 < f.conversion.base := (base_pos _).trans' Nat.zero_lt_one
  have hzeros := hrow.zeros hpos (f.precision.getD 1 -
    ((Nat.digits f.conversion.base (f.value v).natAbs).map f.digitChar).reverse.length)
  unfold digits
  simp only
  split
  · exact hzeros.zero hpos
  · exact hzeros

theorem value_eq_zero_iff (f : Format) (v : BitVec W) : f.value v = 0 ↔ v.toNat = 0 := by
  unfold value
  split
  · rw [← BitVec.toInt_zero, BitVec.toInt_inj, BitVec.toNat_eq]
    simp
  · omega

theorem isMark_mark (f : Format) (v : BitVec W) : IsMark f.conversion.base (f.mark v) := by
  unfold mark
  split
  · split
    · next hx => exact .inr ⟨by rw [hx]; rfl, 'x', .inl rfl, rfl⟩
    · split
      · next hX => exact .inr ⟨by rw [hX]; rfl, 'X', .inr rfl, rfl⟩
      · exact .inl rfl
  · exact .inl rfl

/-- A blank may stand for the sign. -/
theorem exists_sign (f : Format) (v : BitVec W) :
    ∃ s : Sign, (f.sign v).filter (!isSpace ·) = s.text ∧
      f.value v = s.apply (f.value v).natAbs := by
  unfold sign value
  by_cases hd : f.conversion = .d
  · rw [if_pos hd, if_pos hd]
    split_ifs with hneg hplus hspace
    · exact ⟨.minus, by decide, by rw [Sign.apply, if_pos rfl]; omega⟩
    · exact ⟨.plus, by decide, by rw [Sign.apply, if_neg (by decide)]; omega⟩
    · exact ⟨.none, by decide, by rw [Sign.apply, if_neg (by decide)]; omega⟩
    · exact ⟨.none, by decide, by rw [Sign.apply, if_neg (by decide)]; omega⟩
  · rw [if_neg hd, if_neg hd]
    exact ⟨.none, by decide, by rw [Sign.apply, if_neg (by decide)]; omega⟩

/-- What is printed, without the blanks, and what its digits are. -/
theorem exists_row_print (f : Format) (v : BitVec W) :
    ∃ (s : Sign) (ds : Text), Row f.conversion.base (f.value v).natAbs ds ∧
      f.value v = s.apply (f.value v).natAbs ∧
      (f.print v).filter (!isSpace ·) = s.text ++ (f.mark v ++ ds) := by
  obtain ⟨s, hsign, hvalue⟩ := f.exists_sign v
  have hblanks : ∀ k, (List.replicate k ' ').filter (!isSpace ·) = [] := by
    intro k
    rw [List.filter_eq_nil_iff]
    intro c hc
    rw [List.eq_of_mem_replicate hc]
    decide
  have hkept : ∀ t : Text, (∀ c ∈ t, isSpace c = false) → t.filter (!isSpace ·) = t := by
    intro t ht
    rw [List.filter_eq_self]
    intro c hc
    rw [ht c hc]
    rfl
  have hmark : (f.mark v).filter (!isSpace ·) = f.mark v := by
    obtain h | ⟨-, x, hx, h⟩ := f.isMark_mark v
    · rw [h]
      rfl
    · rw [h]
      obtain rfl | rfl := hx <;> decide
  have hrow := f.row_digits v
  have hdigits := hkept _ (hrow.not_isSpace (base_le _))
  have hbody : (f.body v).filter (!isSpace ·) = s.text ++ (f.mark v ++ f.digits v) := by
    rw [body, List.filter_append, List.filter_append, hsign, hmark, hdigits]
  unfold print
  simp only
  split
  · refine ⟨s, f.digits v, hrow, hvalue, ?_⟩
    rw [List.filter_append, hblanks, List.append_nil, hbody]
  · split
    · -- the zeros are put between the mark and the digits
      have hzeros := hrow.zeros (by have := base_pos f.conversion; omega)
        (f.width - (f.body v).length)
      refine ⟨s, _, hzeros, hvalue, ?_⟩
      rw [List.filter_append, List.filter_append, hsign, hmark,
        hkept _ (hzeros.not_isSpace (base_le _))]
    · refine ⟨s, f.digits v, hrow, hvalue, ?_⟩
      rw [List.filter_append, hblanks, List.nil_append, hbody]

/-- The text denotes the value, or it has no digits, and the value is zero. -/
theorem denotes_print (f : Format) (v : BitVec W) :
    Denotes f.conversion.base ((f.print v).filter (!isSpace ·)) (f.value v) ∨
      v.toNat = 0 ∧ ∃ s : Sign, (f.print v).filter (!isSpace ·) = s.text := by
  obtain ⟨s, ds, hrow, hvalue, hprint⟩ := f.exists_row_print v
  cases ds with
  | nil =>
    have hzero : v.toNat = 0 :=
      (f.value_eq_zero_iff v).mp (Int.natAbs_eq_zero.mp hrow.eq_zero)
    refine .inr ⟨hzero, s, ?_⟩
    have hmark : f.mark v = [] := if_neg fun h => h.2 hzero
    rw [hprint, hmark, List.nil_append, List.append_nil]
  | cons c ds =>
    refine .inl ⟨s, f.mark v, c :: ds, hprint, f.isMark_mark v, List.cons_ne_nil c ds,
      hrow.digit, ?_⟩
    rw [hrow.value]
    exact hvalue

end Format

end QUniBone.Numeral
