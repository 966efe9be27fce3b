import QUniBone.Ke11.Coherence
import QUniBone.Lib.BitShift

/-!
# KE11-A: shifts bit by bit

LSH and ASH shift the 32 bits of AC and MQ in one go, and get back the bits that are lost. Here
they are compared with shifts by one bit.

* `Shows`: AC, MQ and the flags are those of a shift.
* `LSH_left_shows` and the others: the four kinds of shifts.
* `Normalizes`: the shifts of NOR.
-/

namespace QUniBone.KE11

open BitShift

/-! ## Flags -/

namespace State

def flagN (s : State) : Bool := s.sr.getLsbD 6

/-- NXV is N exclusive or V. -/
def flagV (s : State) : Bool := s.sr.getLsbD 7 ^^ s.sr.getLsbD 6

def flagC (s : State) : Bool := s.sr.getLsbD 0

end State

/-- N is set, and NXV complemented, if the result is negative. -/
def withSign (negative : Bool) (sr : BitVec 8) : BitVec 8 :=
  if negative then sr ^^^ (SR_N ||| SR_NXV) else sr

theorem dynamicBits_and (ac mq : BitVec 16) : dynamicBits ac mq &&& ~~~SR_DYN = 0 := by
  unfold dynamicBits
  cases mq.msb <;> split_ifs <;> decide

/-- The update keeps the flags. -/
theorem update_getLsbD {i : ℕ} (s : State) (hi : i < 8) (h : SR_DYN.getLsbD i = false) :
    s.update.sr.getLsbD i = s.sr.getLsbD i := by
  have hdynamic := congrArg (BitVec.getLsbD · i) (dynamicBits_and s.ac s.mq)
  rw [BitVec.getLsbD_and, BitVec.getLsbD_not, h] at hdynamic
  have hnone : (dynamicBits s.ac s.mq).getLsbD i = false := by simpa [hi] using hdynamic
  show (s.sr &&& ~~~SR_DYN ||| dynamicBits s.ac s.mq).getLsbD i = _
  rw [BitVec.getLsbD_or, hnone, BitVec.getLsbD_and, BitVec.getLsbD_not, h]
  simp [hi]

theorem update_flagN (s : State) : s.update.flagN = s.flagN :=
  update_getLsbD s (by decide) (by decide)

theorem update_flagV (s : State) : s.update.flagV = s.flagV := by
  unfold State.flagV
  rw [update_getLsbD s (by decide) (by decide), update_getLsbD s (by decide) (by decide)]

theorem update_flagC (s : State) : s.update.flagC = s.flagC :=
  update_getLsbD s (by decide) (by decide)

theorem update_acmq (s : State) : s.update.acmq = s.acmq := rfl

section

variable {s : State} {negative : Bool} {sr : BitVec 8}

theorem flagN_of_withSign (h : s.sr = withSign negative sr) (hn : sr.getLsbD 6 = false) :
    s.flagN = negative := by
  unfold State.flagN
  rw [h, withSign]
  cases negative with
  | false => exact hn
  | true => simp [hn, -BitVec.getLsbD_eq_getElem]

theorem flagV_of_withSign (h : s.sr = withSign negative sr) (hn : sr.getLsbD 6 = false) :
    s.flagV = sr.getLsbD 7 := by
  unfold State.flagV
  rw [h, withSign]
  cases negative with
  | false => simp [hn, -BitVec.getLsbD_eq_getElem]
  | true => simp [hn, -BitVec.getLsbD_eq_getElem]

theorem flagC_of_withSign (h : s.sr = withSign negative sr) : s.flagC = sr.getLsbD 0 := by
  unfold State.flagC
  rw [h, withSign]
  cases negative with
  | false => rfl
  | true => simp

end

/-! ## The result of a shift -/

/-- AC, MQ and the flags are those of a shift. -/
structure Shows (t : State) (r : Shifted 32) : Prop where
  value : t.acmq = r.value
  negative : t.flagN = r.value.msb
  overflow : t.flagV = r.overflow
  carry : t.flagC = r.carry

theorem acmq_of_extract (x : BitVec 32) : x.extractLsb' 16 16 ++ x.extractLsb' 0 16 = x := by
  apply BitVec.eq_of_getLsbD_eq
  intro i hi
  rw [BitVec.getLsbD_append]
  split
  case isTrue hlt => simp [hlt]
  case isFalse hge => simp [show i - 16 < 16 by omega, show 16 + (i - 16) = i by omega]

theorem acmq_msb (s : State) : s.acmq.msb = s.ac.msb := by
  unfold State.acmq
  rw [BitVec.msb_append]
  simp

theorem extract_msb (x : BitVec 32) : (x.extractLsb' 16 16).msb = x.msb := by
  have h := BitVec.msb_append (x := x.extractLsb' 16 16) (y := x.extractLsb' 0 16)
  rw [acmq_of_extract] at h
  simpa using h.symm

theorem shifted_shows (s : State) {sr : BitVec 8} {r : Shifted 32} (hn : sr.getLsbD 6 = false)
    (hoverflow : sr.getLsbD 7 = r.overflow) (hcarry : sr.getLsbD 0 = r.carry) :
    Shows (s.shifted r.value sr) r := by
  let t : State := { s with
    ac := r.value.extractLsb' 16 16
    mq := r.value.extractLsb' 0 16
    sc := 0
    sr := withSign (r.value.extractLsb' 16 16).msb sr }
  have ht : s.shifted r.value sr = t.update := rfl
  rw [ht]
  exact {
    value := acmq_of_extract r.value
    negative := by rw [update_flagN, flagN_of_withSign rfl hn, extract_msb]
    overflow := by rw [update_flagV, flagV_of_withSign rfl hn, hoverflow]
    carry := by rw [update_flagC, flagC_of_withSign rfl, hcarry] }

/-! ## The bits lost -/

theorem lostBits_getLsbD (sout t32 : BitVec 32) :
    (lostBits sout t32).getLsbD 6 = false ∧
      (lostBits sout t32).getLsbD 7 = decide (sout ≠ signWord t32.msb) ∧
      (lostBits sout t32).getLsbD 0 = sout.getLsbD 0 := by
  unfold lostBits
  by_cases h : sout ≠ signWord t32.msb
  · rw [if_pos h, decide_eq_true h]
    cases sout.getLsbD 0 <;> decide
  · rw [if_neg h, decide_eq_false h]
    cases sout.getLsbD 0 <;> decide

theorem lastBit_getLsbD (x : BitVec 32) (count : ℕ) :
    (lastBit x count).getLsbD 6 = false ∧ (lastBit x count).getLsbD 7 = false ∧
      (lastBit x count).getLsbD 0 = (x.sshiftRight (63 - count)).getLsbD 0 := by
  unfold lastBit
  cases (x.sshiftRight (63 - count)).getLsbD 0 with
  | false => exact ⟨rfl, rfl, rfl⟩
  | true => exact ⟨rfl, rfl, rfl⟩

theorem signWord_getLsbD (b : Bool) {i : ℕ} (hi : i < 32) : (signWord b).getLsbD i = b := by
  unfold signWord
  cases b with
  | false => exact BitVec.getLsbD_zero
  | true => exact BitVec.getLsbD_allOnes.trans (decide_eq_true hi)

/-- The upper `m` bits, which are followed by the sign. -/
theorem sout_getLsbD (x : BitVec 32) {m n i : ℕ} (hm : 0 < m) (hle : m ≤ 32) (hmn : m ≤ n + 1)
    (hi : i < 32) :
    (x.sshiftRight (32 - m) ||| signWord x.msb <<< n).getLsbD i =
      if i < m then x.getMsbD (m - 1 - i) else x.msb := by
  rw [BitVec.getLsbD_or, BitVec.getLsbD_sshiftRight, BitVec.getLsbD_shiftLeft]
  split
  case isTrue hlt =>
    have hbit : x.getLsbD (32 - m + i) = x.getMsbD (m - 1 - i) := by
      rw [BitVec.getMsbD_eq_getLsbD, decide_eq_true (by omega), Bool.true_and]
      congr 1
      omega
    rw [if_pos (by omega), hbit]
    by_cases hin : i < n
    · simp [hin, hi]
    · -- the last of them is the sign itself
      have hlast : m - 1 - i = 0 := by omega
      rw [hlast, ← BitVec.msb, signWord_getLsbD _ (by omega)]
      cases x.msb <;> simp [hi]
  case isFalse hge =>
    rw [if_neg (by omega), signWord_getLsbD _ (by omega)]
    cases x.msb <;> simp [hi]

/-- Are all the upper bits equal? -/
theorem sout_eq_iff (x : BitVec 32) {m n : ℕ} (b : Bool) (hm : 0 < m) (hle : m ≤ 32)
    (hmn : m ≤ n + 1) :
    x.sshiftRight (32 - m) ||| signWord x.msb <<< n = signWord b ↔ ∀ k < m, x.getMsbD k = b := by
  constructor
  · intro h k hk
    have hbit := sout_getLsbD x hm hle hmn (show m - 1 - k < 32 by omega)
    rw [h, signWord_getLsbD b (by omega), if_pos (by omega)] at hbit
    rw [hbit]
    congr 1
    omega
  · intro h
    apply BitVec.eq_of_getLsbD_eq
    intro i hi
    rw [sout_getLsbD x hm hle hmn hi, signWord_getLsbD b hi]
    split
    · exact h _ (by omega)
    · exact h 0 hm

/-! ## LSH -/

variable {s : State} {n : ℕ}

theorem LSH_left_shows (hcount : (s.dato .LSH &&& 0o77).toNat = n) (hn : n < 32) :
    Shows (LSH s) (OneBit.left.run s.acmq n) := by
  unfold LSH
  dsimp only
  rw [hcount]
  cases n with
  | zero => exact shifted_shows s (r := ⟨s.acmq, false, false⟩) rfl rfl rfl
  | succ n =>
    rw [if_neg (by omega), if_pos hn, ← acmq_msb, ← left_value]
    obtain ⟨hnegative, hoverflow, hcarry⟩ := lostBits_getLsbD
      (s.acmq.sshiftRight (32 - (n + 1)) ||| signWord s.acmq.msb <<< (n + 1))
      (OneBit.left.run s.acmq (n + 1)).value
    refine shifted_shows s hnegative (hoverflow.trans ?_) (hcarry.trans ?_)
    · rw [Bool.eq_iff_iff, decide_eq_true_iff, left_overflow, left_value, BitShift.msb_shiftLeft,
        Ne, sout_eq_iff s.acmq _ (by omega) (by omega) (by omega)]
      simp
    · rw [left_carry, sout_getLsbD s.acmq (by omega) (by omega) (by omega) (by omega),
        if_pos (by omega)]
      rfl

/-- V stays clear, whatever the sign was. -/
theorem LSH_right_shows (hcount : (s.dato .LSH &&& 0o77).toNat = 64 - n) (hn : 0 < n)
    (hle : n ≤ 32) :
    Shows (LSH s) { OneBit.right.run s.acmq n with overflow := false } := by
  unfold LSH
  dsimp only
  rw [hcount, if_neg (by omega), if_neg (by omega)]
  have hvalue : (if 64 - n ≠ 32 then s.acmq >>> (64 - (64 - n)) else 0) =
      (OneBit.right.run s.acmq n).value := by
    rw [right_value]
    split
    case isTrue => rw [show 64 - (64 - n) = n by omega]
    case isFalse h =>
      rw [show n = 32 by omega]
      exact (BitVec.ushiftRight_eq_zero (by omega)).symm
  rw [hvalue]
  obtain ⟨hnegative, hoverflow, hcarry⟩ := lastBit_getLsbD s.acmq (64 - n)
  refine shifted_shows s (r := { OneBit.right.run s.acmq n with overflow := false }) hnegative
    hoverflow (hcarry.trans ?_)
  obtain ⟨k, rfl⟩ : ∃ k, n = k + 1 := ⟨n - 1, by omega⟩
  show _ = (OneBit.right.run s.acmq (k + 1)).carry
  rw [right_carry, BitVec.getLsbD_sshiftRight, show 63 - (64 - (k + 1)) = k by omega]
  simp [show k < 32 by omega]

/-! ## ASH -/

/-- The sign, and behind it the bits that are shifted -/
theorem ash_left_value (x : BitVec 32) (n : ℕ) :
    x &&& 0o20000000000 ||| x <<< n &&& 0o17777777777 = (OneBit.arithmeticLeft.run x n).value := by
  have hsign : (0o20000000000 : BitVec 32) = BitVec.intMin 32 := by decide
  have hrest : (0o17777777777 : BitVec 32) = ~~~BitVec.intMin 32 := by decide
  rw [hsign, hrest]
  apply BitVec.eq_of_getMsbD_eq
  intro k hk
  rw [arithmeticLeft_value, BitVec.getMsbD_or, BitVec.getMsbD_and, BitVec.getMsbD_and,
    BitVec.getMsbD_not, BitVec.getMsbD_intMin, BitVec.getMsbD_shiftLeft, BitVec.msb]
  split
  case isTrue hzero => simp [hzero]
  case isFalse hpos => simp [hpos, hk]

theorem arithmeticLeft_msb (x : BitVec 32) (n : ℕ) :
    (OneBit.arithmeticLeft.run x n).value.msb = x.msb := by
  rw [BitVec.msb, arithmeticLeft_value, if_pos rfl]

theorem ASH_left_shows (hcount : (s.dato .ASH &&& 0o77).toNat = n) (hn : n < 32) :
    Shows (ASH s) (OneBit.arithmeticLeft.run s.acmq n) := by
  unfold ASH
  dsimp only
  rw [hcount]
  cases n with
  | zero => exact shifted_shows s (r := ⟨s.acmq, false, false⟩) rfl rfl rfl
  | succ n =>
    rw [if_neg (by omega), if_pos hn, ← acmq_msb, ash_left_value,
      show 31 - (n + 1) = 32 - (n + 2) by omega]
    obtain ⟨hnegative, hoverflow, hcarry⟩ := lostBits_getLsbD
      (s.acmq.sshiftRight (32 - (n + 2)) ||| signWord s.acmq.msb <<< (n + 1))
      (OneBit.arithmeticLeft.run s.acmq (n + 1)).value
    refine shifted_shows s hnegative (hoverflow.trans ?_) (hcarry.trans ?_)
    · -- the sign is one of the bits that are compared with it
      rw [Bool.eq_iff_iff, decide_eq_true_iff, arithmeticLeft_overflow, arithmeticLeft_msb, Ne,
        sout_eq_iff s.acmq _ (by omega) (by omega) (by omega), Nat.forall_lt_succ_left]
      simp [BitVec.msb]
    · rw [arithmeticLeft_carry, sout_getLsbD s.acmq (by omega) (by omega) (by omega) (by omega),
        if_pos (by omega)]
      rfl

theorem ASH_right_shows (hcount : (s.dato .ASH &&& 0o77).toNat = 64 - n) (hn : 0 < n)
    (hle : n ≤ 32) : Shows (ASH s) (OneBit.arithmeticRight.run s.acmq n) := by
  unfold ASH
  dsimp only
  rw [hcount, if_neg (by omega), if_neg (by omega), ← acmq_msb]
  have hvalue : (if 64 - n ≠ 32 then
      s.acmq >>> (64 - (64 - n)) ||| signWord s.acmq.msb <<< (64 - n - 32)
      else signWord s.acmq.msb) = (OneBit.arithmeticRight.run s.acmq n).value := by
    rw [arithmeticRight_value]
    apply BitVec.eq_of_getLsbD_eq
    intro i hi
    rw [BitVec.getLsbD_sshiftRight]
    split
    case isTrue hne =>
      rw [show 64 - (64 - n) = n by omega, BitVec.getLsbD_or, BitVec.getLsbD_ushiftRight,
        BitVec.getLsbD_shiftLeft, signWord_getLsbD _ (by omega)]
      by_cases hlt : n + i < 32
      · simp [hlt, hi, show i < 64 - n - 32 by omega]
      · simp [hlt, Nat.not_le.mpr hi, hi, show ¬ i < 64 - n - 32 by omega,
          BitVec.getLsbD_of_ge s.acmq (n + i) (by omega)]
    case isFalse heq =>
      rw [signWord_getLsbD _ hi]
      simp [show ¬ n + i < 32 by omega, hi]
  rw [hvalue]
  obtain ⟨hnegative, hoverflow, hcarry⟩ := lastBit_getLsbD s.acmq (64 - n)
  refine shifted_shows s hnegative (hoverflow.trans arithmeticRight_overflow.symm)
    (hcarry.trans ?_)
  obtain ⟨k, rfl⟩ : ∃ k, n = k + 1 := ⟨n - 1, by omega⟩
  rw [arithmeticRight_carry (by omega), BitVec.getLsbD_sshiftRight,
    show 63 - (64 - (k + 1)) = k by omega]
  simp [show k < 32 by omega]

/-! ## NOR -/

/-- Where the shifts end before 31 steps: AC bits 15 and 14 differ, or the special value -/
def Stops (x : BitVec 32) : Prop := x.getMsbD 0 ≠ x.getMsbD 1 ∨ x = 0xc0000000

/-- The shifts of NOR -/
structure Normalizes (x : BitVec 32) (t : State) (n : ℕ) : Prop where
  value : t.acmq = x <<< n
  count : t.sc.toNat = n
  goes : ∀ k < n, ¬ Stops (x <<< k)
  stops : n = 31 ∨ n < 31 ∧ Stops (x <<< n)
  negative : t.flagN = t.acmq.msb
  overflow : t.flagV = false
  carry : t.flagC = false

theorem acmq_shiftLeft (ac mq : BitVec 16) :
    (ac <<< 1 ||| mq >>> 15) ++ mq <<< 1 = (ac ++ mq) <<< 1 := by
  apply BitVec.eq_of_getLsbD_eq
  intro i hi
  simp only [BitVec.getLsbD_append, BitVec.getLsbD_or, BitVec.getLsbD_shiftLeft,
    BitVec.getLsbD_ushiftRight]
  by_cases hlow : i < 16
  · simp [hlow, show i - 1 < 16 by omega, hi]
  · by_cases hfirst : i = 16
    · simp [hfirst]
    · simp [hlow, hi, show ¬ i - 1 < 16 by omega, show ¬ i - 16 < 1 by omega,
        show ¬ i < 1 by omega, show i - 16 < 16 by omega, show i - 16 - 1 = i - 1 - 16 by omega,
        BitVec.getLsbD_of_ge mq (15 + (i - 16)) (by omega)]

theorem normalized_iff (s : State) : Normalized s.ac s.mq ↔ Stops s.acmq := by
  have hspecial : s.ac = 0o140000 ∧ s.mq = 0 ↔ s.acmq = 0xc0000000 := by
    refine ⟨fun ⟨hac, hmq⟩ => by rw [State.acmq, hac, hmq]; rfl, fun h => ?_⟩
    have hac : s.acmq.extractLsb' 16 16 = s.ac := extractLsb'_high s.ac s.mq
    have hmq : s.acmq.extractLsb' 0 16 = s.mq := extractLsb'_low s.ac s.mq
    rw [h] at hac hmq
    exact ⟨hac.symm, hmq.symm⟩
  have hbits : (s.ac ^^^ s.ac <<< 1).msb = true ↔ s.acmq.getMsbD 0 ≠ s.acmq.getMsbD 1 := by
    unfold State.acmq
    rw [BitVec.msb_xor, BitShift.msb_shiftLeft, BitVec.getMsbD_append, BitVec.getMsbD_append]
    simp [BitVec.msb]
  unfold Normalized Stops
  rw [hspecial, hbits, or_comm]

/-- The loop after `c` steps, with `n` to go. -/
theorem shiftLoop_normalizes (n c : ℕ) (hn : n + c = 31) (s : State) (hc : s.sc.toNat = c) :
    ∃ k ≤ n, (shiftLoop n s).acmq = s.acmq <<< k ∧ (shiftLoop n s).sc.toNat = c + k ∧
      (∀ i < k, ¬ Stops (s.acmq <<< i)) ∧ (k = n ∨ Stops (s.acmq <<< k)) := by
  induction n generalizing c s with
  | zero =>
    exact ⟨0, le_refl 0, (BitVec.shiftLeft_zero _).symm, hc, fun i hi => by omega, .inl rfl⟩
  | succ n ih =>
    unfold shiftLoop
    split
    case isTrue hstop =>
      refine ⟨0, by omega, (BitVec.shiftLeft_zero _).symm, hc, fun i hi => by omega, .inr ?_⟩
      rw [BitVec.shiftLeft_zero]
      exact (normalized_iff s).mp hstop
    case isFalse hgo =>
      let t : State := { s with
        ac := s.ac <<< 1 ||| s.mq >>> 15
        mq := s.mq <<< 1
        sc := s.sc + 1 }
      have hvalue : t.acmq = s.acmq <<< 1 := acmq_shiftLeft s.ac s.mq
      have hcount : t.sc.toNat = c + 1 := by
        show (s.sc + 1).toNat = c + 1
        rw [BitVec.toNat_add, hc]
        show (c + 1) % 2 ^ 8 = c + 1
        omega
      obtain ⟨k, hk, hacmq, hsc, hgoes, hstops⟩ := ih (c + 1) (by omega) t hcount
      have hshift (i : ℕ) : t.acmq <<< i = s.acmq <<< (i + 1) := by
        rw [hvalue, ← BitVec.shiftLeft_add, Nat.add_comm]
      refine ⟨k + 1, by omega, hacmq.trans (hshift k), hsc.trans (by omega), fun i hi => ?_, ?_⟩
      · cases i with
        | zero =>
          rw [BitVec.shiftLeft_zero]
          exact fun hstop => hgo ((normalized_iff s).mpr hstop)
        | succ i =>
          rw [← hshift]
          exact hgoes i (by omega)
      · rw [← hshift]
        exact hstops.imp_left (by omega)

theorem NOR_normalizes (s : State) : ∃ n, Normalizes s.acmq (NOR s) n := by
  obtain ⟨n, hle, hvalue, hcount, hgoes, hstops⟩ :=
    shiftLoop_normalizes 31 0 rfl { s with sc := 0 } rfl
  let t : State := { shiftLoop 31 { s with sc := 0 } with
    sr := withSign (shiftLoop 31 { s with sc := 0 }).ac.msb 0 }
  have ht : NOR s = t.update := by
    show State.update _ = State.update _
    congr 2
  refine ⟨n, ?_⟩
  rw [ht]
  exact {
    value := hvalue
    count := hcount.trans (Nat.zero_add n)
    goes := hgoes
    stops := by
      rcases hstops with heq | hstop
      · exact .inl heq
      · exact (Nat.lt_or_eq_of_le hle).elim (fun hlt => .inr ⟨hlt, hstop⟩) .inl
    negative := by rw [update_flagN, flagN_of_withSign rfl rfl, update_acmq, acmq_msb]
    overflow := by rw [update_flagV, flagV_of_withSign rfl rfl]; rfl
    carry := by rw [update_flagC, flagC_of_withSign rfl]; rfl }

end QUniBone.KE11
