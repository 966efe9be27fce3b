import QUniBone.Lib.Numeral

/-!
# Numeric parameters

`parameter_unsigned_c` and `parameter_unsigned64_c` in `parameter.cpp`. A text is read by `strtol`
or `strtoll` into a signed integer, and the bits of that are the new value.

* `Parameter`, `set`, `parse`, `render`: the two classes, which only differ in their width.
* `ParsesExactly`, `RoundTrips`: what reading a text, and reading a printed value, shall do.
* `Readable`: no text without a digit, no limit of the signed integer in the way.
* `parse_exact_iff`: the texts and values for which that is so.
-/

namespace QUniBone.Parameters

open Numeral

/-! ## Model -/

/-- `parameter_unsigned_c` and `parameter_unsigned64_c` -/
inductive Kind
  | unsigned
  | unsigned64

/-- The bits of `value`, and of the result of `strtol` or `strtoll` -/
def Kind.bits : Kind → ℕ
  | .unsigned => 32
  | .unsigned64 => 64

structure Parameter (k : Kind) where
  name : Text
  readonly : Bool
  format : Format
  bitwidth : ℕ
  /-- octal, decimal, hex -/
  base : ℕ
  value : BitVec k.bits
  newValue : BitVec k.bits
  /-- `on_param_changed` of the object it belongs to, if there is one: whether it accepts the
  new value -/
  onParamChanged : Option (BitVec k.bits → Bool)
  base_valid : 2 ≤ base ∧ base ≤ 36
  /-- `BitmaskFromLen32` and `BitmaskFromLen64` have an entry for it. -/
  bitwidth_le : readonly = false → bitwidth ≤ k.bits

inductive BadParameter
  | parse (message : Text)
  | readonly (message : Text)

/-- `BitmaskFromLen32`, `BitmaskFromLen64` -/
def bitmaskFromLen (W n : ℕ) : BitVec W := BitVec.ofNat W (2 ^ n - 1)

/-- `TRIM_STRING` -/
def trimString (text : Text) : Text := text.filter (!isSpace ·)

/-- `c_str()`, which the C library reads up to the first zero -/
def cString (text : Text) : Text := text.takeWhile (· ≠ '\x00')

/-- `std::to_string` -/
def toString (n : ℕ) : Text := Nat.toDigits 10 n

variable {k : Kind}

namespace Parameter

/-- What `on_param_changed` says, or true without a device -/
def accepted (p : Parameter k) (v : BitVec k.bits) : Bool :=
  match p.onParamChanged with
  | none => true
  | some f => f v

def set (p : Parameter k) (newValue : BitVec k.bits) : Parameter k :=
  -- call `on_param_changed` only on change
  if p.value = newValue then p
  else
    let p := { p with newValue := newValue }
    if p.accepted p.newValue then { p with value := p.newValue } else p

/-- The exception that is thrown, and the parameter afterwards -/
def parse (p : Parameter k) (text : Text) : Option BadParameter × Parameter k :=
  if p.readonly then
    (some (.readonly ("Parameter \"".toList ++ p.name ++ "\" is read-only".toList)), p)
  else
    let text := trimString text
    let r := strtol k.bits p.base (cString text)
    let p := { p with newValue := BitVec.ofInt k.bits r.1 }
    match r.2 with
    | c :: _ =>
      (some (.parse ("Format error in \"".toList ++ text ++ "\" at \"".toList ++ [c] ++ ['"'])), p)
    | [] =>
      if p.newValue &&& ~~~(bitmaskFromLen k.bits p.bitwidth) ≠ 0 then
        (some (.parse ("Number ".toList ++ toString p.newValue.toNat ++
          " exceeds bitwidth ".toList ++ toString p.bitwidth)), p)
      else (none, p.set p.newValue)

/-- The size of `buffer` -/
def bufferSize : ℕ := 1024

/-- `none`: the text and its zero are longer than the buffer. -/
def render (p : Parameter k) : Option Text :=
  let text := p.format.print p.value
  if text.length < bufferSize then some text else none

end Parameter

/-! ## What shall hold -/

/-- A numeral for a number that fits is set if the device accepts it, and the value stays
otherwise. All other texts are refused with an exception. -/
structure ParsesExactly (p : Parameter k) (text : Text) : Prop where
  sets : p.readonly = false → ∀ v, Denotes p.base (trimString text) v → 0 ≤ v →
    v < 2 ^ p.bitwidth → (p.parse text).1 = none ∧
      (p.parse text).2.value =
        if p.accepted (BitVec.ofInt k.bits v) then BitVec.ofInt k.bits v else p.value
  refuses : (p.readonly = true ∨
      ∀ v, Denotes p.base (trimString text) v → v < 0 ∨ 2 ^ p.bitwidth ≤ v) →
    (p.parse text).1 ≠ none ∧ (p.parse text).2.value = p.value

/-- The printed value fits its buffer, and is read back. -/
def RoundTrips (p : Parameter k) : Prop :=
  ∃ text, p.render = some text ∧ (p.parse text).2.value = p.value

/-- The largest result of `strtol` or `strtoll` -/
def largest (k : Kind) : BitVec k.bits := BitVec.ofInt k.bits (2 ^ (k.bits - 1) - 1)

/-- Setting it would change nothing. -/
def Untaken (p : Parameter k) (v : BitVec k.bits) : Prop := v = p.value ∨ p.accepted v = false

/-- The texts that are read right. -/
structure Readable (p : Parameter k) (text : Text) : Prop where
  /-- There is something to read. -/
  nonempty : cString (trimString text) ≠ []
  /-- A zero in the text only stands behind what is refused anyway. -/
  whole : cString (trimString text) ≠ trimString text →
    ∀ v, Denotes p.base (cString (trimString text)) v → v < 0 ∨ 2 ^ p.bitwidth ≤ v
  /-- The sign of a negative number is a bit too many. -/
  negative : ∀ v, Denotes p.base (cString (trimString text)) v → v < 0 → p.bitwidth < k.bits
  /-- A number that is read as the largest one also exceeds the width as such, or neither of the
  two is taken. -/
  large : ∀ v, Denotes p.base (cString (trimString text)) v → 2 ^ (k.bits - 1) ≤ v →
    p.bitwidth + 1 < k.bits ∨
      v < 2 ^ p.bitwidth ∧ Untaken p (BitVec.ofInt k.bits v) ∧ Untaken p (largest k)

/-- The values that are read back from the format. -/
structure Printable (p : Parameter k) : Prop where
  fits : p.format.width < Parameter.bufferSize ∧
    (p.format.body p.value).length < Parameter.bufferSize
  kept : p.readonly = true ∨ p.format.conversion = .d ∨ p.value.toNat < 2 ^ (k.bits - 1) ∨
    p.bitwidth + 1 < k.bits ∨ Untaken p (largest k)

/-! ## Numbers -/

theorem two_pow_bits (k : Kind) : 2 ^ k.bits = 2 * 2 ^ (k.bits - 1) := by
  cases k <;> rfl

theorem and_not_bitmask {W : ℕ} (n : ℕ) (x : BitVec W) :
    x &&& ~~~(bitmaskFromLen W n) = 0 ↔ x.toNat < 2 ^ n := by
  have hbit : ∀ i, i < W → (bitmaskFromLen W n).getLsbD i = decide (i < n) := by
    intro i hi
    rw [bitmaskFromLen, BitVec.getLsbD_ofNat, Nat.testBit_two_pow_sub_one]
    simp [hi]
  constructor
  · intro hzero
    refine Nat.lt_pow_two_of_testBit _ fun i hi => ?_
    by_cases hW : i < W
    · have hand := congrArg (fun y => BitVec.getLsbD y i) hzero
      simp only [BitVec.getLsbD_and, BitVec.getLsbD_not, hbit i hW, hW] at hand
      simpa [BitVec.getLsbD, Nat.not_lt.mpr hi] using hand
    · exact BitVec.getLsbD_of_ge x i (Nat.le_of_not_lt hW)
  · intro hlt
    refine BitVec.eq_of_getLsbD_eq fun i hi => ?_
    rw [BitVec.getLsbD_and, BitVec.getLsbD_not, hbit i hi]
    by_cases hn : i < n
    · simp [hn]
    · -- the bit is behind the number
      have hx : x.getLsbD i = false :=
        Nat.testBit_lt_two_pow (hlt.trans_le (Nat.pow_le_pow_right (by decide) (by omega)))
      simp [hx]

/-- What `newValue` is assigned for a text that denotes the integer. -/
def word (k : Kind) (v : ℤ) : BitVec k.bits := BitVec.ofInt k.bits (clip k.bits v)

theorem toNat_ofInt_of_nonneg {v : ℤ} (h0 : 0 ≤ v) (h : v < 2 ^ k.bits) :
    ((BitVec.ofInt k.bits v).toNat : ℤ) = v := by
  rw [BitVec.toNat_ofInt]
  push_cast
  rw [Int.emod_eq_of_lt h0 h]
  omega

theorem clip_of_small {v : ℤ} (h0 : 0 ≤ v) (h : v < 2 ^ (k.bits - 1)) : clip k.bits v = v := by
  unfold clip
  omega

theorem clip_of_large {v : ℤ} (h : 2 ^ (k.bits - 1) ≤ v) :
    clip k.bits v = 2 ^ (k.bits - 1) - 1 := by
  unfold clip
  have hpos : (0 : ℤ) < 2 ^ (k.bits - 1) := by positivity
  omega

theorem word_of_large {v : ℤ} (h : 2 ^ (k.bits - 1) ≤ v) : word k v = largest k := by
  rw [word, clip_of_large h]
  rfl

theorem toNat_largest (k : Kind) : (largest k).toNat = 2 ^ (k.bits - 1) - 1 := by
  cases k <;> rfl

theorem word_of_small {v : ℤ} (h0 : 0 ≤ v) (h : v < 2 ^ (k.bits - 1)) :
    word k v = BitVec.ofInt k.bits v := by
  rw [word, clip_of_small h0 h]

theorem toNat_word_of_small {v : ℤ} (h0 : 0 ≤ v) (h : v < 2 ^ (k.bits - 1)) :
    ((word k v).toNat : ℤ) = v := by
  have hbits : (2 : ℤ) ^ k.bits = 2 * 2 ^ (k.bits - 1) := by exact_mod_cast two_pow_bits k
  rw [word_of_small h0 h, toNat_ofInt_of_nonneg h0 (by omega)]

theorem toNat_word_of_neg {v : ℤ} (h : v < 0) : 2 ^ (k.bits - 1) ≤ (word k v).toNat := by
  have hbits : (2 : ℤ) ^ k.bits = 2 * 2 ^ (k.bits - 1) := by exact_mod_cast two_pow_bits k
  have hpos : (0 : ℤ) < 2 ^ (k.bits - 1) := by positivity
  have hclip : -2 ^ (k.bits - 1) ≤ clip k.bits v ∧ clip k.bits v < 0 := by
    unfold clip
    omega
  have hmod : clip k.bits v % 2 ^ k.bits = clip k.bits v + 2 ^ k.bits := by
    rw [← Int.add_emod_right, Int.emod_eq_of_lt (by omega) (by omega)]
  rw [word, BitVec.toNat_ofInt]
  push_cast
  rw [hmod]
  zify
  rw [Int.toNat_of_nonneg (by omega)]
  omega

/-! Which integers pass the test of the bit width -/

theorem word_lt_of_neg {v : ℤ} (h : v < 0) (n : ℕ) :
    (word k v).toNat < 2 ^ n ↔ k.bits ≤ n := by
  have hlow := toNat_word_of_neg (k := k) h
  constructor
  · intro hlt
    have hpow : k.bits - 1 < n := (Nat.pow_lt_pow_iff_right (by decide)).mp (hlow.trans_lt hlt)
    omega
  · intro hle
    exact (word k v).isLt.trans_le (Nat.pow_le_pow_right (by decide) hle)

theorem word_lt_of_small {v : ℤ} (h0 : 0 ≤ v) (h : v < 2 ^ (k.bits - 1)) (n : ℕ) :
    (word k v).toNat < 2 ^ n ↔ v < 2 ^ n := by
  have hv := toNat_word_of_small h0 h
  zify
  rw [hv]

theorem word_lt_of_large {v : ℤ} (h : 2 ^ (k.bits - 1) ≤ v) (n : ℕ) :
    (word k v).toNat < 2 ^ n ↔ k.bits ≤ n + 1 := by
  have hpos : 0 < 2 ^ (k.bits - 1) := Nat.two_pow_pos _
  have hone : 1 < k.bits := by cases k <;> decide
  rw [word_of_large h, toNat_largest]
  constructor
  · intro hlt
    by_contra hn
    -- twice the power of two is not larger than the largest number
    have hle : 2 ^ (n + 1) ≤ 2 ^ (k.bits - 1) := Nat.pow_le_pow_right (by decide) (by omega)
    have hn0 : 0 < 2 ^ n := Nat.two_pow_pos n
    rw [pow_succ] at hle
    omega
  · intro hle
    have hpow : 2 ^ (k.bits - 1) ≤ 2 ^ n := Nat.pow_le_pow_right (by decide) (by omega)
    omega

/-! ## Reading a text -/

variable (p : Parameter k)

theorem set_value (x : BitVec k.bits) :
    (p.set x).value = if p.accepted x then x else p.value := by
  unfold Parameter.set
  split
  · next h =>
    rw [h, ite_self]
  · show (if p.accepted x then { p with newValue := x, value := x }
      else { p with newValue := x } : Parameter k).value = _
    rw [apply_ite Parameter.value]

/-- What `parse` comes down to: a text that is not read to its end is refused. -/
theorem parse_unread (hro : p.readonly = false) {text : Text}
    (h : (scan p.base (cString (trimString text))).2 ≠ []) :
    (p.parse text).1 ≠ none ∧ (p.parse text).2.value = p.value := by
  obtain ⟨c, t, hrest⟩ := List.exists_cons_of_ne_nil h
  simp [Parameter.parse, hro, strtol, hrest]

/-- A text that is read to its end only has to pass the test of the width. -/
theorem parse_whole (hro : p.readonly = false) {text : Text} {v : ℤ}
    (h : scan p.base (cString (trimString text)) = (v, [])) :
    p.parse text =
      if (word k v).toNat < 2 ^ p.bitwidth then
        (none, { p with newValue := word k v }.set (word k v))
      else (some (.parse ("Number ".toList ++ toString (word k v).toNat ++
        " exceeds bitwidth ".toList ++ toString p.bitwidth)), { p with newValue := word k v }) := by
  rw [Parameter.parse, if_neg (by simp [hro])]
  simp only [strtol, h]
  show ite (word k v &&& ~~~(bitmaskFromLen k.bits p.bitwidth) ≠ 0) _ _ = _
  rw [ite_not]
  exact if_congr (and_not_bitmask p.bitwidth _) rfl rfl

theorem parse_too_large (hro : p.readonly = false) {text : Text} {v : ℤ}
    (h : scan p.base (cString (trimString text)) = (v, []))
    (hlarge : ¬ (word k v).toNat < 2 ^ p.bitwidth) :
    (p.parse text).1 ≠ none ∧ (p.parse text).2.value = p.value := by
  rw [parse_whole p hro h, if_neg hlarge]
  exact ⟨Option.some_ne_none _, rfl⟩

theorem parse_read (hro : p.readonly = false) {text : Text} {v : ℤ}
    (h : scan p.base (cString (trimString text)) = (v, []))
    (hsmall : (word k v).toNat < 2 ^ p.bitwidth) :
    (p.parse text).1 = none ∧
      (p.parse text).2.value = if p.accepted (word k v) then word k v else p.value := by
  rw [parse_whole p hro h, if_pos hsmall]
  exact ⟨rfl, set_value _ _⟩

theorem parse_readonly (hro : p.readonly = true) (text : Text) :
    (p.parse text).1 ≠ none ∧ (p.parse text).2.value = p.value := by
  simp [Parameter.parse, hro]

theorem not_isSpace_cString (text : Text) : ∀ c ∈ cString (trimString text), isSpace c = false := by
  intro c hc
  have hkept := (List.mem_filter.mp (List.takeWhile_subset _ hc)).2
  simpa using hkept

theorem cString_of_denotes {text : Text} {v : ℤ} (h : Denotes p.base text v) :
    cString text = text :=
  List.takeWhile_eq_self_iff.mpr fun c hc =>
    decide_eq_true (h.ne_zero p.base_valid.2 c hc)

/-- Two words can only leave the same value behind if neither is taken. -/
theorem untaken_of_eq {v w : BitVec k.bits} (hne : v ≠ w)
    (h : (if p.accepted v then v else p.value) = if p.accepted w then w else p.value) :
    Untaken p v ∧ Untaken p w := by
  unfold Untaken
  cases hv : p.accepted v with
  | false =>
    refine ⟨.inr rfl, ?_⟩
    cases hw : p.accepted w with
    | false => exact .inr rfl
    | true => exact .inl (by simpa [hv, hw] using h.symm)
  | true =>
    cases hw : p.accepted w with
    | false => exact ⟨.inl (by simpa [hv, hw] using h), .inr rfl⟩
    | true => exact absurd (by simpa [hv, hw] using h) hne

theorem kept_of_untaken {v : BitVec k.bits} (h : Untaken p v) :
    (if p.accepted v then v else p.value) = p.value := by
  obtain h | h := h
  · rw [h, ite_self]
  · rw [if_neg (by rw [h]; decide)]

/-- A number that shall be accepted passes the test of the width. -/
theorem word_lt_of_inside {v : ℤ} (h : ¬ (v < 0 ∨ 2 ^ p.bitwidth ≤ v)) :
    (word k v).toNat < 2 ^ p.bitwidth := by
  have hv := not_or.mp h
  have h0 : 0 ≤ v := Int.not_lt.mp hv.1
  have hlt : v < 2 ^ p.bitwidth := Int.not_le.mp hv.2
  by_cases hsmall : v < 2 ^ (k.bits - 1)
  · exact (word_lt_of_small h0 hsmall _).mpr hlt
  · have hlarge : (2 : ℤ) ^ (k.bits - 1) ≤ v := Int.not_lt.mp hsmall
    refine (word_lt_of_large hlarge _).mpr ?_
    have hpow : k.bits - 1 < p.bitwidth :=
      (Nat.pow_lt_pow_iff_right (by decide : 1 < 2)).mp (by exact_mod_cast hlarge.trans_lt hlt)
    omega

theorem ofInt_ne_largest {v : ℤ} (h : 2 ^ (k.bits - 1) ≤ v) (hlt : v < 2 ^ k.bits) :
    BitVec.ofInt k.bits v ≠ largest k := by
  intro heq
  have hv := toNat_ofInt_of_nonneg (h.trans' (by positivity)) hlt
  rw [heq, toNat_largest] at hv
  have hpos : 0 < 2 ^ (k.bits - 1) := Nat.two_pow_pos _
  push_cast [hpos] at hv
  omega

variable {p}

/-- What is denoted by the part of the text that is read -/
theorem scan_of_denotes_cString {text : Text} {v : ℤ}
    (h : Denotes p.base (cString (trimString text)) v) :
    scan p.base (cString (trimString text)) = (v, []) :=
  scan_of_denotes p.base_valid.2 (not_isSpace_cString text) h

theorem eq_of_denotes {text : Text} {v w : ℤ}
    (hv : Denotes p.base (cString (trimString text)) v)
    (hw : Denotes p.base (trimString text) w) :
    v = w ∧ cString (trimString text) = trimString text := by
  have hc := cString_of_denotes p hw
  refine ⟨?_, hc⟩
  rw [← hc] at hw
  exact hv.eq p.base_valid.2 (not_isSpace_cString text) hw

namespace ParsesExactly

variable {text : Text}

/-- What passes the test of the width is not to be refused. -/
theorem inside (h : ParsesExactly p text) (hro : p.readonly = false) {v : ℤ}
    (hv : scan p.base (cString (trimString text)) = (v, []))
    (hlt : (word k v).toNat < 2 ^ p.bitwidth) :
    ∃ w, Denotes p.base (trimString text) w ∧ 0 ≤ w ∧ w < 2 ^ p.bitwidth := by
  by_contra hnone
  refine (h.refuses (.inr fun w hw => ?_)).1 (parse_read p hro hv hlt).1
  by_contra hin
  have hin := not_or.mp hin
  exact hnone ⟨w, hw, Int.not_lt.mp hin.1, Int.not_le.mp hin.2⟩

theorem readable (h : ParsesExactly p text) (hro : p.readonly = false) : Readable p text where
  nonempty hempty := by
    have hscan : scan p.base (cString (trimString text)) = (0, []) := by
      rw [hempty]
      rfl
    have hword : (word k 0).toNat < 2 ^ p.bitwidth :=
      (word_lt_of_small (le_refl 0) (by positivity) _).mpr (by positivity)
    obtain ⟨w, hw, -⟩ := h.inside hro hscan hword
    -- the text would be empty
    rw [← cString_of_denotes p hw, hempty] at hw
    exact not_denotes_nil _ _ hw
  whole hcut v hv := by
    by_contra hin
    obtain ⟨w, hw, -⟩ := h.inside hro (scan_of_denotes_cString hv) (word_lt_of_inside p hin)
    exact hcut (cString_of_denotes p hw)
  negative v hv hneg := by
    by_contra hwide
    have hword := (word_lt_of_neg (k := k) hneg p.bitwidth).mpr (Nat.le_of_not_lt hwide)
    obtain ⟨w, hw, hw0, -⟩ := h.inside hro (scan_of_denotes_cString hv) hword
    obtain ⟨rfl, -⟩ := eq_of_denotes hv hw
    omega
  large v hv hlarge := by
    by_cases hwide : p.bitwidth + 1 < k.bits
    · exact .inl hwide
    · right
      have hscan := scan_of_denotes_cString hv
      have hword := (word_lt_of_large hlarge p.bitwidth).mpr (Nat.le_of_not_lt hwide)
      obtain ⟨w, hw, hw0, hlt⟩ := h.inside hro hscan hword
      obtain ⟨rfl, -⟩ := eq_of_denotes hv hw
      have hbits : (2 : ℤ) ^ p.bitwidth ≤ 2 ^ k.bits := by
        exact_mod_cast Nat.pow_le_pow_right (by decide) (p.bitwidth_le hro)
      -- what is set, and what should be
      have hset := (parse_read p hro hscan hword).2
      rw [word_of_large hlarge, (h.sets hro v hw hw0 hlt).2] at hset
      exact ⟨hlt, untaken_of_eq p (ofInt_ne_largest hlarge (hlt.trans_le hbits)) hset⟩

end ParsesExactly

theorem Readable.refused {text : Text} (h : Readable p text) {v : ℤ}
    (hv : Denotes p.base (cString (trimString text)) v) (hout : v < 0 ∨ 2 ^ p.bitwidth ≤ v) :
    ¬ (word k v).toNat < 2 ^ p.bitwidth := by
  rcases lt_or_ge v 0 with hneg | h0
  · rw [word_lt_of_neg hneg]
    exact Nat.not_le.mpr (h.negative v hv hneg)
  · have hge : 2 ^ p.bitwidth ≤ v := hout.resolve_left (Int.not_lt.mpr h0)
    rcases lt_or_ge v (2 ^ (k.bits - 1)) with hsmall | hlarge
    · rw [word_lt_of_small h0 hsmall]
      exact Int.not_lt.mpr hge
    · rw [word_lt_of_large hlarge]
      obtain hwide | ⟨hlt, -⟩ := h.large v hv hlarge
      · omega
      · exact absurd hge (Int.not_le.mpr hlt)

theorem Readable.parsesExactly {text : Text} (h : Readable p text) (hro : p.readonly = false) :
    ParsesExactly p text where
  sets _ v hv h0 hlt := by
    have hc := cString_of_denotes p hv
    have hv' : Denotes p.base (cString (trimString text)) v := by
      rw [hc]
      exact hv
    have hword := word_lt_of_inside p (not_or.mpr ⟨Int.not_lt.mpr h0, Int.not_le.mpr hlt⟩)
    obtain ⟨hnone, hvalue⟩ := parse_read p hro (scan_of_denotes_cString hv') hword
    refine ⟨hnone, hvalue.trans ?_⟩
    rcases lt_or_ge v (2 ^ (k.bits - 1)) with hsmall | hlarge
    · rw [word_of_small h0 hsmall]
    · obtain hwide | ⟨-, huntaken⟩ := h.large v hv' hlarge
      · -- the width leaves no room for the number
        have := (word_lt_of_large hlarge p.bitwidth).mp hword
        omega
      · rw [word_of_large hlarge, kept_of_untaken p huntaken.1, kept_of_untaken p huntaken.2]
  refuses hout := by
    have hout := hout.resolve_left (by rw [hro]; decide)
    by_cases hrest : (scan p.base (cString (trimString text))).2 = []
    · have hscan : scan p.base (cString (trimString text)) =
          ((scan p.base (cString (trimString text))).1, []) := Prod.ext rfl hrest
      have hv := (denotes_iff p.base_valid.2 h.nonempty (not_isSpace_cString text)).mpr hscan
      refine parse_too_large p hro hscan (h.refused hv ?_)
      by_cases hcut : cString (trimString text) = trimString text
      · rw [hcut] at hv ⊢
        exact hout _ hv
      · exact h.whole hcut _ hv
    · exact parse_unread p hro hrest

/-- The texts that are read as they should be -/
theorem parsesExactly_iff (p : Parameter k) (text : Text) :
    ParsesExactly p text ↔ p.readonly = true ∨ Readable p text := by
  cases hro : p.readonly with
  | true =>
    have hkept := parse_readonly p hro text
    exact iff_of_true ⟨fun h => absurd (hro.symm.trans h) (by decide), fun _ => hkept⟩ (.inl rfl)
  | false =>
    refine ⟨fun h => .inr (h.readable hro), fun h => ?_⟩
    exact (h.resolve_left (by decide)).parsesExactly hro

/-! ## Printing and reading back -/

theorem render_eq_some_iff (p : Parameter k) (text : Text) :
    p.render = some text ↔ (p.format.width < Parameter.bufferSize ∧
      (p.format.body p.value).length < Parameter.bufferSize) ∧ p.format.print p.value = text := by
  rw [Parameter.render]
  simp only [Format.length_print, max_lt_iff]
  split
  · next h => simp [h]
  · next h => simp [h]

theorem ofInt_value {f : Format} {v : BitVec k.bits} : BitVec.ofInt k.bits (f.value v) = v := by
  unfold Format.value
  split
  · exact BitVec.ofInt_toInt
  · rw [BitVec.ofInt_natCast, BitVec.ofNat_toNat, BitVec.setWidth_eq]

/-- The printed value is only read as another one at the limit of the signed integer. -/
theorem word_value {f : Format} {v : BitVec k.bits}
    (h : f.conversion = .d ∨ v.toNat < 2 ^ (k.bits - 1)) : word k (f.value v) = v := by
  have hbits : (2 : ℤ) ^ k.bits = 2 * 2 ^ (k.bits - 1) := by exact_mod_cast two_pow_bits k
  have hclip : clip k.bits (f.value v) = f.value v := by
    by_cases hd : f.conversion = .d
    · have hle := BitVec.two_mul_toInt_lt (x := v)
      have hge := BitVec.le_two_mul_toInt (x := v)
      rw [hbits] at hle hge
      rw [Format.value, if_pos hd]
      unfold clip
      omega
    · have hlt : (v.toNat : ℤ) < 2 ^ (k.bits - 1) := by exact_mod_cast h.resolve_left hd
      rw [Format.value, if_neg hd]
      exact clip_of_small (by omega) hlt
  rw [word, hclip, ofInt_value]

/-- A text that is read as the value changes nothing, whether it passes the test or not. -/
theorem parse_same (hro : p.readonly = false) {text : Text} {v : ℤ} {rest : Text}
    (h : scan p.base (cString (trimString text)) = (v, rest)) (hv : word k v = p.value) :
    (p.parse text).2.value = p.value := by
  cases rest with
  | cons c t => exact (parse_unread p hro (by rw [h]; exact List.cons_ne_nil c t)).2
  | nil =>
    by_cases hlt : (word k v).toNat < 2 ^ p.bitwidth
    · rw [(parse_read p hro h hlt).2, hv, ite_self]
    · exact (parse_too_large p hro h hlt).2

theorem parse_print_iff (hro : p.readonly = false) (hbase : p.format.conversion.base = p.base) :
    (p.parse (p.format.print p.value)).2.value = p.value ↔
      p.format.conversion = .d ∨ p.value.toNat < 2 ^ (k.bits - 1) ∨ p.bitwidth + 1 < k.bits ∨
        Untaken p (largest k) := by
  obtain hden | ⟨hzero, s, hsign⟩ := p.format.denotes_print p.value
  · rw [hbase] at hden
    have hcut := cString_of_denotes p hden
    have hscan : scan p.base (cString (trimString (p.format.print p.value))) =
        (p.format.value p.value, []) := by
      refine scan_of_denotes_cString ?_
      rw [trimString, hcut]
      exact hden
    by_cases hword : p.format.conversion = .d ∨ p.value.toNat < 2 ^ (k.bits - 1)
    · exact iff_of_true (parse_same hro hscan (word_value hword)) (hword.imp_right .inl)
    · -- the value is printed unsigned, and read as the largest integer
      obtain ⟨hd, hnat⟩ := not_or.mp hword
      have hlarge : (2 : ℤ) ^ (k.bits - 1) ≤ p.format.value p.value := by
        rw [Format.value, if_neg hd]
        exact_mod_cast Nat.le_of_not_lt hnat
      rw [or_iff_right hd, or_iff_right hnat]
      by_cases hwide : p.bitwidth + 1 < k.bits
      · have hnot : ¬ (word k (p.format.value p.value)).toNat < 2 ^ p.bitwidth := by
          rw [word_lt_of_large hlarge]
          omega
        exact iff_of_true (parse_too_large p hro hscan hnot).2 (.inl hwide)
      · have hlt := (word_lt_of_large hlarge p.bitwidth).mpr (Nat.le_of_not_lt hwide)
        rw [(parse_read p hro hscan hlt).2, word_of_large hlarge, or_iff_right hwide]
        refine ⟨fun h => ?_, kept_of_untaken p⟩
        cases hacc : p.accepted (largest k) with
        | false => exact .inr hacc
        | true => exact .inl (by simpa [hacc] using h)
  · -- nothing is printed, or a sign
    have hcut : cString (trimString (p.format.print p.value)) = s.text := by
      rw [trimString, hsign]
      cases s <;> rfl
    have hscan : scan p.base (cString (trimString (p.format.print p.value))) =
        (0, (scan p.base s.text).2) := by
      rw [hcut]
      exact Prod.ext (scan_sign p.base s) rfl
    have hvalue : word k 0 = p.value := by
      rw [word_of_small (le_refl 0) (by positivity)]
      exact BitVec.eq_of_toNat_eq (by rw [hzero]; simp)
    refine iff_of_true (parse_same hro hscan hvalue) (.inr (.inl ?_))
    rw [hzero]
    positivity

theorem roundTrips_iff (p : Parameter k) (hbase : p.format.conversion.base = p.base) :
    RoundTrips p ↔ Printable p := by
  have hparse : (p.parse (p.format.print p.value)).2.value = p.value ↔
      p.readonly = true ∨ p.format.conversion = .d ∨ p.value.toNat < 2 ^ (k.bits - 1) ∨
        p.bitwidth + 1 < k.bits ∨ Untaken p (largest k) := by
    cases hro : p.readonly with
    | true => exact iff_of_true (parse_readonly p hro _).2 (.inl rfl)
    | false =>
      rw [parse_print_iff hro hbase]
      exact (or_iff_right Bool.false_ne_true).symm
  constructor
  · rintro ⟨text, hrender, hvalue⟩
    obtain ⟨hfits, rfl⟩ := (render_eq_some_iff p text).mp hrender
    exact ⟨hfits, hparse.mp hvalue⟩
  · intro h
    exact ⟨_, (render_eq_some_iff p _).mpr ⟨h.fits, rfl⟩, hparse.mpr h.kept⟩

/-- Which texts are read as they should be, and which values survive being printed and read. -/
theorem parse_exact_iff (p : Parameter k) (text : Text) :
    (ParsesExactly p text ↔ p.readonly = true ∨ Readable p text) ∧
      (p.format.conversion.base = p.base → (RoundTrips p ↔ Printable p)) :=
  ⟨parsesExactly_iff p text, roundTrips_iff p⟩

/-- The line clock frequency, for which the device accepts all values -/
def frequency : Parameter .unsigned where
  name := "Line clock frequency".toList
  readonly := false
  format := ⟨false, false, false, false, false, 0, none, .d⟩
  bitwidth := 32
  base := 10
  value := 50
  newValue := 50
  onParamChanged := some fun _ => true
  base_valid := by decide
  bitwidth_le := fun _ => by decide

theorem parse_exact_frequency :
    (ParsesExactly frequency ['6', '0'] ↔
      frequency.readonly = true ∨ Readable frequency ['6', '0']) ∧
        (RoundTrips frequency ↔ Printable frequency) :=
  ⟨(parse_exact_iff frequency ['6', '0']).1, (parse_exact_iff frequency ['6', '0']).2 rfl⟩

/-- The largest number of 32 bits is read as the largest one of 31 bits. -/
theorem all_ones_halved :
    ¬ ParsesExactly frequency ['4', '2', '9', '4', '9', '6', '7', '2', '9', '5'] := by
  rw [parsesExactly_iff]
  rintro (hro | h)
  · exact absurd hro Bool.false_ne_true
  · have hdigits : ['4', '2', '9', '4', '9', '6', '7', '2', '9', '5'].all
        (fun c => decide (digitValue c < frequency.base)) = true := by decide
    have hdenotes : Denotes frequency.base
        (cString (trimString ['4', '2', '9', '4', '9', '6', '7', '2', '9', '5'])) 4294967295 :=
      ⟨.none, [], ['4', '2', '9', '4', '9', '6', '7', '2', '9', '5'], by decide, .inl rfl,
        List.cons_ne_nil _ _, fun c hc => of_decide_eq_true (List.all_eq_true.mp hdigits c hc),
        by decide⟩
    rcases h.large _ hdenotes (by norm_num [Kind.bits]) with hwide | ⟨-, huntaken, -⟩
    · exact absurd hwide (by decide)
    · rcases huntaken with hvalue | haccepted
      · exact absurd hvalue (by decide)
      · exact absurd haccepted (by decide)

end QUniBone.Parameters
