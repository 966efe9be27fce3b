import QUniBone.Ke11.Ke11

/-!
# KE11-A: the registers a DATI shows

* `Describes`, `Coherent`: what AC, MQ, SC/SR and NOR are to show of the registers behind them.
* `Shown`: the part that every access keeps.
* `shiftLoop_sc`: the step counter after a normalization.
* `coherent_after_iff`: after which accesses all of it is shown.
-/

namespace QUniBone.KE11

/-- The status bits about AC and MQ are those of these two words. -/
structure Describes (status : BitVec 8) (ac mq : BitVec 16) : Prop where
  /-- AC is the sign of MQ -/
  sxt : status.getLsbD 1 = decide (ac = if mq.msb then 0o177777 else 0)
  z : status.getLsbD 2 = decide (ac = 0 ∧ mq = 0)
  mqz : status.getLsbD 3 = decide (mq = 0)
  acz : status.getLsbD 4 = decide (ac = 0)
  acm1 : status.getLsbD 5 = decide (ac = 0o177777)

namespace State

/-- The status a DATI from SC/SR reads -/
def shownStatus (s : State) : BitVec 8 := (s.dati .SCSR).extractLsb' 8 8

structure Coherent (s : State) : Prop where
  ac : s.dati .AC = s.ac
  mq : s.dati .MQ = s.mq
  status : Describes s.shownStatus s.ac s.mq
  flags : s.shownStatus &&& ~~~SR_DYN = s.sr &&& ~~~SR_DYN
  count : (s.dati .SCSR).extractLsb' 0 8 = s.sc
  nor : s.dati .NOR = s.sc.setWidth 16

end State

/-! ## The status bits -/

theorem Describes.congr {status status' : BitVec 8} {ac mq : BitVec 16}
    (h : status &&& SR_DYN = status' &&& SR_DYN) (hd : Describes status ac mq) :
    Describes status' ac mq := by
  have hbit : ∀ i, SR_DYN.getLsbD i = true → status.getLsbD i = status'.getLsbD i := by
    intro i hi
    have := congrArg (·.getLsbD i) h
    simpa only [BitVec.getLsbD_and, hi, Bool.and_true] using this
  exact ⟨hbit 1 rfl ▸ hd.sxt, hbit 2 rfl ▸ hd.z, hbit 3 rfl ▸ hd.mqz, hbit 4 rfl ▸ hd.acz,
    hbit 5 rfl ▸ hd.acm1⟩

theorem describes_dynamicBits (ac mq : BitVec 16) : Describes (dynamicBits ac mq) ac mq := by
  unfold dynamicBits
  constructor <;> by_cases hz : mq = 0 <;> by_cases ha : ac = 0 <;>
    by_cases hm : ac = 0o177777 <;> cases hs : mq.msb <;> simp_all

/-- No bit is set where AC is neither 0 nor -1 and MQ is not 0. -/
theorem describes_zero_iff {status : BitVec 8} {ac mq : BitVec 16} (h : status &&& SR_DYN = 0) :
    Describes status ac mq ↔ ac ≠ 0 ∧ ac ≠ 0o177777 ∧ mq ≠ 0 := by
  have hzero : status &&& SR_DYN = 0 &&& SR_DYN := h.trans BitVec.zero_and.symm
  constructor
  · intro hd
    have hd := hd.congr hzero
    exact ⟨of_decide_eq_false hd.acz.symm, of_decide_eq_false hd.acm1.symm,
      of_decide_eq_false hd.mqz.symm⟩
  · rintro ⟨ha, hm, hz⟩
    refine Describes.congr hzero.symm ?_
    constructor <;> cases hs : mq.msb <;> simp_all

/-- Bits that are cleared and set anew are the new ones. -/
theorem clear_or_and (old new mask : BitVec 8) :
    (old &&& ~~~mask ||| new) &&& mask = new &&& mask := by
  ext i
  simp only [BitVec.getElem_and, BitVec.getElem_or, BitVec.getElem_not]
  cases mask[i] <;> simp

theorem extractLsb'_high {w : ℕ} (hi lo : BitVec w) : (hi ++ lo).extractLsb' w w = hi := by
  ext i hlt
  rw [BitVec.getElem_extractLsb', BitVec.getLsbD_append, if_neg (by omega),
    Nat.add_sub_cancel_left, BitVec.getLsbD_eq_getElem]

theorem extractLsb'_low {w : ℕ} (hi lo : BitVec w) : (hi ++ lo).extractLsb' 0 w = lo := by
  ext i hlt
  rw [BitVec.getElem_extractLsb', BitVec.getLsbD_append, if_pos (by omega), Nat.zero_add,
    BitVec.getLsbD_eq_getElem]

/-! ## What every access keeps -/

namespace State

/-- AC, MQ and SC/SR show the registers. -/
structure Shown (s : State) : Prop where
  ac : s.dati .AC = s.ac
  mq : s.dati .MQ = s.mq
  scsr : s.dati .SCSR = s.sr ++ s.sc

theorem Shown.coherent_iff {s : State} (h : s.Shown) :
    s.Coherent ↔ Describes s.sr s.ac s.mq ∧ s.dati .NOR = s.sc.setWidth 16 := by
  have hstatus : s.shownStatus = s.sr := by
    rw [shownStatus, h.scsr, extractLsb'_high]
  constructor
  · intro hc
    exact ⟨hstatus ▸ hc.status, hc.nor⟩
  · rintro ⟨hd, hnor⟩
    refine ⟨h.ac, h.mq, hstatus.symm ▸ hd, by rw [hstatus], ?_, hnor⟩
    rw [h.scsr, extractLsb'_low]

theorem update_shown (s : State) : s.update.Shown := ⟨rfl, rfl, rfl⟩

@[simp]
theorem update_dati_NOR (s : State) : s.update.dati .NOR = s.dati .NOR := rfl

/-- After the three updates only NOR can be wrong. -/
theorem coherent_update_iff (s : State) :
    s.update.Coherent ↔ s.dati .NOR = s.sc.setWidth 16 := by
  have hd : Describes s.update.sr s.ac s.mq :=
    (describes_dynamicBits _ _).congr (clear_or_and _ _ _).symm
  exact (update_shown s).coherent_iff.trans (and_iff_right hd)

end State

/-! ## The step counter after each operation -/

/-- DIV shifts once instead. -/
def DivideFails (s : State) (div : BitVec 16) : Prop := absd s.acmq / 2 ^ 16 ≥ div.toInt.natAbs

instance decidableDivideFails (s : State) (div : BitVec 16) : Decidable (DivideFails s div) :=
  inferInstanceAs (Decidable (_ ≥ _))

theorem DIV_eq_update (s : State) (access : Access) :
    ∃ t : State, DIV s access = t.update ∧ t.dati = s.dati ∧
      t.sc = if DivideFails s (operand access (s.dato .DIV)) then 15 else 0 := by
  unfold DIV
  dsimp only
  split
  · next h => exact ⟨_, rfl, rfl, (if_pos h).symm⟩
  · next h => exact ⟨_, rfl, rfl, (if_neg h).symm⟩

theorem AC_eq_update {s : State} (h : s.dati .MQ = s.mq) (access : Access) :
    ∃ t : State, AC s access = t.update ∧ t.dati = s.dati ∧ t.sc = s.sc := by
  refine ⟨{ s with ac := operand access (s.dato .AC) }, ?_, rfl, rfl⟩
  -- MQ is shown already
  have hmq : Function.update (Function.update s.dati .AC (operand access (s.dato .AC))) .MQ s.mq =
      Function.update s.dati .AC (operand access (s.dato .AC)) :=
    Function.update_eq_self_iff.mpr h.symm
  simp only [AC, State.update, State.updateAC, State.updateMQ, State.setRegisterDatiValue, hmq]

theorem MQ_eq_update (s : State) (access : Access) :
    ∃ t : State, MQ s access = t.update ∧ t.dati = s.dati ∧ t.sc = s.sc :=
  ⟨_, rfl, rfl, rfl⟩

theorem MUL_eq_update (s : State) (access : Access) :
    ∃ t : State, MUL s access = t.update ∧ t.dati = s.dati ∧ t.sc = 0 :=
  ⟨_, rfl, rfl, rfl⟩

theorem LSH_eq_update (s : State) :
    ∃ t : State, LSH s = t.update ∧ t.dati = s.dati ∧ t.sc = 0 := by
  unfold LSH
  dsimp only
  split
  · exact ⟨_, rfl, rfl, rfl⟩
  · split
    · exact ⟨_, rfl, rfl, rfl⟩
    · exact ⟨_, rfl, rfl, rfl⟩

theorem ASH_eq_update (s : State) :
    ∃ t : State, ASH s = t.update ∧ t.dati = s.dati ∧ t.sc = 0 := by
  unfold ASH
  dsimp only
  split
  · exact ⟨_, rfl, rfl, rfl⟩
  · split
    · exact ⟨_, rfl, rfl, rfl⟩
    · exact ⟨_, rfl, rfl, rfl⟩

/-- One round of the loop shifts AC and MQ as one long word. -/
theorem append_shiftLeft_one (ac mq : BitVec 16) :
    (ac <<< 1 ||| mq >>> 15) ++ mq <<< 1 = (ac ++ mq) <<< 1 := by
  ext i hi
  simp only [BitVec.getElem_append, BitVec.getElem_or, BitVec.getElem_shiftLeft,
    BitVec.getElem_ushiftRight]
  grind

/-- `Normalized` of the two halves -/
def NormalizedLong (x : BitVec 32) : Prop := Normalized (x.extractLsb' 16 16) (x.extractLsb' 0 16)

theorem normalizedLong_acmq (s : State) : NormalizedLong s.acmq ↔ Normalized s.ac s.mq := by
  have hac : s.acmq.extractLsb' 16 16 = s.ac := extractLsb'_high _ _
  have hmq : s.acmq.extractLsb' 0 16 = s.mq := extractLsb'_low _ _
  rw [NormalizedLong, hac, hmq]

/-- The shifts until the loop ends: the first count that normalizes, 31 at most. -/
structure IsShiftCount (x : BitVec 32) (limit n : ℕ) : Prop where
  le : n ≤ limit
  before : ∀ k < n, ¬NormalizedLong (x <<< k)
  normalized : n < limit → NormalizedLong (x <<< n)

theorem IsShiftCount.unique {x : BitVec 32} {limit n m : ℕ} (hn : IsShiftCount x limit n)
    (hm : IsShiftCount x limit m) : n = m := by
  rcases lt_trichotomy n m with h | h | h
  · exact absurd (hn.normalized (lt_of_lt_of_le h hm.le)) (hm.before n h)
  · exact h
  · exact absurd (hm.normalized (lt_of_lt_of_le h hn.le)) (hn.before m h)

theorem shiftLoop_sc (limit : ℕ) (s : State) :
    ∃ n, IsShiftCount s.acmq limit n ∧ (shiftLoop limit s).sc = s.sc + BitVec.ofNat 8 n := by
  induction limit generalizing s with
  | zero => exact ⟨0, ⟨le_rfl, by simp, by simp⟩, by simp [shiftLoop]⟩
  | succ limit ih =>
    unfold shiftLoop
    split
    · next hnorm =>
      refine ⟨0, ⟨by omega, by simp, fun _ => ?_⟩, by simp⟩
      simpa [normalizedLong_acmq] using hnorm
    · next hnorm =>
      obtain ⟨n, hn, hsc⟩ := ih
        { s with ac := s.ac <<< 1 ||| s.mq >>> 15, mq := s.mq <<< 1, sc := s.sc + 1 }
      have hx : ∀ k, (s.acmq <<< 1) <<< k = s.acmq <<< (k + 1) := fun k => by
        rw [← BitVec.shiftLeft_add, Nat.add_comm]
      -- the long word of the next round
      simp only [State.acmq, append_shiftLeft_one] at hn
      refine ⟨n + 1, ⟨by have := hn.le; omega, ?_, ?_⟩, ?_⟩
      · rintro (_ | k) hk
        · simpa [normalizedLong_acmq] using hnorm
        · exact hx k ▸ hn.before k (by omega)
      · intro hlt
        exact hx n ▸ hn.normalized (by omega)
      · rw [hsc, BitVec.ofNat_add, BitVec.add_assoc, BitVec.add_comm (1 : BitVec 8)]
        rfl

theorem shiftLoop_dati (limit : ℕ) (s : State) : (shiftLoop limit s).dati = s.dati := by
  induction limit generalizing s with
  | zero => rfl
  | succ limit ih =>
    unfold shiftLoop
    split
    · rfl
    · exact ih _

theorem NOR_eq_update (s : State) :
    ∃ t : State, NOR s = t.update ∧ t.dati = s.dati ∧
      ∀ count : BitVec 8, count = t.sc ↔ IsShiftCount s.acmq 31 count.toNat := by
  obtain ⟨n, hn, hsc⟩ := shiftLoop_sc 31 { s with sc := 0 }
  have hsc : (shiftLoop 31 { s with sc := 0 }).sc = BitVec.ofNat 8 n :=
    hsc.trans (BitVec.zero_add _)
  have hnat : (BitVec.ofNat 8 n).toNat = n := by
    have := hn.le
    rw [BitVec.toNat_ofNat]
    omega
  refine ⟨_, rfl, shiftLoop_dati _ _, fun count => ?_⟩
  constructor
  · rintro rfl
    exact hsc ▸ hnat.symm ▸ hn
  · intro hcount
    exact BitVec.eq_of_toNat_eq (by rw [hcount.unique hn, hsc, hnat])

/-! ## Which accesses leave a coherent device -/

/-- The low byte of the last word written to SC/SR since the reset. -/
def lastCount : List Op → BitVec 8
  | [] => 0
  | .dati _ :: ops => lastCount ops
  | .reset :: _ => 0
  | .dato r access data :: ops =>
    if r = .SCSR ∧ access = .word then data.extractLsb' 0 8 else lastCount ops

/-- The divisor that a write to DIV leaves. -/
def divisor (s : State) (access : Access) (data : BitVec 16) : BitVec 16 :=
  operand access (written (s.dato .DIV) data access)

/-- NOR keeps the count last written to SC/SR, so an operation has to end with this count. SC/SR
written as a word needs an AC and MQ none of its status bits is set for. -/
def HoldsWhen : List Op → Prop
  | [] => False
  | .dati _ :: ops => HoldsWhen ops
  | .reset :: _ => False
  | .dato r access data :: ops =>
    match r with
    | .SCSR =>
      if access = .word then
        (after ops).ac ≠ 0 ∧ (after ops).ac ≠ 0o177777 ∧ (after ops).mq ≠ 0
      else HoldsWhen ops
    | .AC | .MQ => lastCount ops = (after ops).sc
    | .MUL | .LSH | .ASH => lastCount ops = 0
    | .DIV =>
      lastCount ops = if DivideFails (after ops) (divisor (after ops) access data) then 15 else 0
    | .NOR => IsShiftCount (after ops).acmq 31 (lastCount ops).toNat

theorem latch_dato (s : State) (r : Reg) (access : Access) (data : BitVec 16) :
    (s.latch r access data).dato r = written (s.dato r) (data &&& r.writableBits) access :=
  Function.update_self ..

theorem State.Shown.latch {s : State} (h : s.Shown) (r : Reg) (access : Access)
    (data : BitVec 16) : (s.latch r access data).Shown :=
  ⟨h.ac, h.mq, h.scsr⟩

theorem latch_coherent_iff (s : State) (r : Reg) (access : Access) (data : BitVec 16) :
    (s.latch r access data).Coherent ↔ s.Coherent :=
  ⟨fun h => ⟨h.ac, h.mq, h.status, h.flags, h.count, h.nor⟩,
    fun h => ⟨h.ac, h.mq, h.status, h.flags, h.count, h.nor⟩⟩

/-- Of the writes only that of a word to SC/SR sets what NOR shows. -/
theorem writeRegister_dati_NOR (s : State) {r : Reg} {access : Access}
    (h : ¬(r = .SCSR ∧ access = .word)) : (writeRegister s r access).dati .NOR = s.dati .NOR := by
  cases r with
  | DIV =>
    obtain ⟨t, ht, hdati, -⟩ := DIV_eq_update s access
    rw [writeRegister, ht, State.update_dati_NOR, hdati]
  | AC => rfl
  | MQ => rfl
  | MUL => rfl
  | SCSR => rw [writeRegister, SCSR, if_neg fun hw => h ⟨rfl, hw⟩]
  | NOR =>
    obtain ⟨t, ht, hdati, -⟩ := NOR_eq_update s
    rw [writeRegister, ht, State.update_dati_NOR, hdati]
  | LSH =>
    obtain ⟨t, ht, hdati, -⟩ := LSH_eq_update s
    rw [writeRegister, ht, State.update_dati_NOR, hdati]
  | ASH =>
    obtain ⟨t, ht, hdati, -⟩ := ASH_eq_update s
    rw [writeRegister, ht, State.update_dati_NOR, hdati]

theorem SCSR_word_dati_NOR (s : State) :
    (SCSR s .word).dati .NOR = ((s.dato .SCSR).extractLsb' 0 8).setWidth 16 := by
  show s.dato .SCSR &&& 0o140777 &&& 0xff = _
  -- the masks keep the low byte
  have hlow : ∀ n : ℕ, n &&& (0o140777 &&& 0xff) = n % 2 ^ 8 :=
    fun n => Nat.and_two_pow_sub_one_eq_mod n 8
  rw [BitVec.and_assoc]
  apply BitVec.eq_of_toNat_eq
  rw [BitVec.toNat_setWidth, BitVec.extractLsb'_toNat, Nat.shiftRight_zero,
    Nat.mod_eq_of_lt (b := 65536) (by omega)]
  exact hlow _

theorem SCSR_shown {s : State} (h : s.Shown) (access : Access) : (SCSR s access).Shown := by
  unfold SCSR
  split
  · refine ⟨h.ac, h.mq, ?_⟩
    have hvalue : ∀ v : BitVec (8 + 8), v.extractLsb' 8 8 ++ v.extractLsb' 0 8 = v :=
      fun _ => BitVec.extractLsb'_append_extractLsb'
    exact (hvalue (s.dato .SCSR &&& 0o140777)).symm
  · exact h

theorem writeRegister_shown {s : State} (h : s.Shown) (r : Reg) (access : Access) :
    (writeRegister s r access).Shown := by
  cases r with
  | DIV =>
    obtain ⟨t, ht, -⟩ := DIV_eq_update s access
    rw [writeRegister, ht]
    exact t.update_shown
  | AC => exact ⟨rfl, h.mq, rfl⟩
  | MQ => exact State.update_shown _
  | MUL => exact State.update_shown _
  | SCSR => exact SCSR_shown h access
  | NOR =>
    obtain ⟨t, ht, -⟩ := NOR_eq_update s
    rw [writeRegister, ht]
    exact t.update_shown
  | LSH =>
    obtain ⟨t, ht, -⟩ := LSH_eq_update s
    rw [writeRegister, ht]
    exact t.update_shown
  | ASH =>
    obtain ⟨t, ht, -⟩ := ASH_eq_update s
    rw [writeRegister, ht]
    exact t.update_shown

/-- A DATI changes no register that shows anything. -/
theorem apply_dati (s : State) (r r' : Reg) (h : r'.activeOnDati = false) :
    (apply s (.dati r)).dati r' = s.dati r' := by
  show (if r.activeOnDati then s.setRegisterDatiValue r 0 else s).dati r' = s.dati r'
  split
  · next hr =>
    have hne : r' ≠ r := by
      rintro rfl
      rw [h] at hr
      contradiction
    exact Function.update_of_ne hne _ _
  · rfl

/-- …and no register behind them. -/
theorem apply_dati_registers (s : State) (r : Reg) :
    ∃ dati, apply s (.dati r) = { s with dati := dati } := by
  show ∃ dati, (if r.activeOnDati then s.setRegisterDatiValue r 0 else s) = { s with dati := dati }
  split
  · exact ⟨_, rfl⟩
  · exact ⟨s.dati, rfl⟩

theorem apply_shown {s : State} (h : s.Shown) (op : Op) : (apply s op).Shown := by
  cases op with
  | dati r =>
    have hac := apply_dati s r .AC rfl
    have hmq := apply_dati s r .MQ rfl
    have hscsr := apply_dati s r .SCSR rfl
    obtain ⟨dati, hdati⟩ := apply_dati_registers s r
    rw [hdati] at hac hmq hscsr ⊢
    exact ⟨hac.trans h.ac, hmq.trans h.mq, hscsr.trans h.scsr⟩
  | dato r access data =>
    exact writeRegister_shown (h.latch r access data) r access
  | reset => exact ⟨rfl, rfl, (by rfl : (0 : BitVec 16) = (0 : BitVec 8) ++ (0 : BitVec 8))⟩

theorem shown_after (ops : List Op) : (after ops).Shown := by
  induction ops with
  | nil => exact ⟨rfl, rfl, rfl⟩
  | cons op ops ih => exact apply_shown ih op

theorem and_writableBits {r : Reg} (h : r ≠ .NOR) (data : BitVec 16) :
    data &&& r.writableBits = data := by
  cases r with
  | NOR => exact absurd rfl h
  | _ => exact BitVec.and_allOnes

theorem dati_NOR (ops : List Op) : (after ops).dati .NOR = (lastCount ops).setWidth 16 := by
  induction ops with
  | nil => rfl
  | cons op ops ih =>
    cases op with
    | dati r => exact (apply_dati _ r .NOR rfl).trans ih
    | reset => rfl
    | dato r access data =>
      unfold lastCount
      split
      · next h =>
        obtain ⟨rfl, rfl⟩ := h
        refine (SCSR_word_dati_NOR _).trans ?_
        rw [latch_dato, and_writableBits (by decide)]
        rfl
      · next h => exact (writeRegister_dati_NOR _ h).trans ih

/-- The count NOR goes on to show has to be that of the operation. -/
theorem coherent_iff_count {s t s' : State} {count : BitVec 8} (hs' : s' = t.update)
    (hdati : t.dati = s.dati) (hnor : s.dati .NOR = count.setWidth 16) :
    s'.Coherent ↔ count = t.sc := by
  rw [hs', State.coherent_update_iff, hdati, hnor]
  constructor
  · intro h
    have h := congrArg (BitVec.setWidth 8) h
    simpa using h
  · rintro rfl
    rfl

/-- After the reset SC/SR shows no bit for the zeros. -/
theorem not_describes_zero : ¬Describes 0 0 0 := fun h => absurd h.acz (by decide)

theorem not_coherent_resetController (s : State) : ¬s.resetController.Coherent := by
  intro h
  have hstatus : s.resetController.shownStatus = 0 := by
    simp [State.shownStatus, State.resetController]
  exact not_describes_zero (hstatus ▸ h.status)

/-- A word to SC/SR drops the bits about AC and MQ. -/
theorem coherent_SCSR_word (s : State) (h : s.Shown) :
    (SCSR s .word).Coherent ↔ s.ac ≠ 0 ∧ s.ac ≠ 0o177777 ∧ s.mq ≠ 0 := by
  have hsc : (SCSR s .word).sc = (s.dato .SCSR).extractLsb' 0 8 := by
    show (s.dato .SCSR &&& 0o140777).extractLsb' 0 8 = _
    rw [BitVec.extractLsb'_and]
    exact BitVec.and_allOnes
  have hsr : (SCSR s .word).sr &&& SR_DYN = 0 := by
    show (s.dato .SCSR &&& 0o140777).extractLsb' 8 8 &&& SR_DYN = 0
    rw [BitVec.extractLsb'_and, BitVec.and_assoc]
    exact BitVec.and_zero
  have hnor : (SCSR s .word).dati .NOR = (SCSR s .word).sc.setWidth 16 := by
    rw [SCSR_word_dati_NOR, hsc]
  rw [(SCSR_shown h .word).coherent_iff, and_iff_left hnor]
  exact describes_zero_iff hsr

/-- Three slips: the reset, a word to SC/SR with AC 0, and NOR after a multiplication. -/
theorem stale_registers :
    ¬(after [.reset]).Coherent ∧ ¬(after [.dato .SCSR .word 0]).Coherent ∧
      ¬(after [.dato .MUL .word 2, .dato .SCSR .word 3]).Coherent := by
  refine ⟨fun h => ?_, fun h => ?_, fun h => ?_⟩
  · exact absurd h.status.acz (by decide)
  · exact absurd h.status.acz (by decide)
  -- the step counter is 0, NOR still shows 3
  · exact absurd h.nor (by decide)

theorem coherent_after_iff (ops : List Op) : (after ops).Coherent ↔ HoldsWhen ops := by
  induction ops with
  | nil => exact iff_false_intro fun h => not_describes_zero h.status
  | cons op ops ih =>
    have hshown := shown_after ops
    have hnor := dati_NOR ops
    cases op with
    | dati r =>
      refine Iff.trans ?_ ih
      have hkept := apply_dati (after ops) r .NOR rfl
      obtain ⟨dati, hdati⟩ := apply_dati_registers (after ops) r
      rw [after, (apply_shown hshown _).coherent_iff, hshown.coherent_iff, hkept, hdati]
    | reset => exact iff_false_intro (not_coherent_resetController _)
    | dato r access data =>
      cases r with
      | DIV =>
        obtain ⟨t, ht, hdati, hsc⟩ := DIV_eq_update ((after ops).latch .DIV access data) access
        rw [latch_dato, and_writableBits (by decide)] at hsc
        exact (coherent_iff_count ht hdati hnor).trans (hsc ▸ Iff.rfl)
      | AC =>
        have hlatch := hshown.latch .AC access data
        obtain ⟨t, ht, hdati, hsc⟩ := AC_eq_update hlatch.mq access
        exact (coherent_iff_count ht hdati hnor).trans (hsc ▸ Iff.rfl)
      | MQ =>
        obtain ⟨t, ht, hdati, hsc⟩ := MQ_eq_update ((after ops).latch .MQ access data) access
        exact (coherent_iff_count ht hdati hnor).trans (hsc ▸ Iff.rfl)
      | MUL =>
        obtain ⟨t, ht, hdati, hsc⟩ := MUL_eq_update ((after ops).latch .MUL access data) access
        exact (coherent_iff_count ht hdati hnor).trans (hsc ▸ Iff.rfl)
      | SCSR =>
        cases access with
        | word => exact coherent_SCSR_word _ (hshown.latch .SCSR .word data)
        | byteL => exact (latch_coherent_iff _ _ _ _).trans ih
        | byteH => exact (latch_coherent_iff _ _ _ _).trans ih
      | NOR =>
        obtain ⟨t, ht, hdati, hsc⟩ := NOR_eq_update ((after ops).latch .NOR access data)
        exact (coherent_iff_count ht hdati hnor).trans (hsc _)
      | LSH =>
        obtain ⟨t, ht, hdati, hsc⟩ := LSH_eq_update ((after ops).latch .LSH access data)
        exact (coherent_iff_count ht hdati hnor).trans (hsc ▸ Iff.rfl)
      | ASH =>
        obtain ⟨t, ht, hdati, hsc⟩ := ASH_eq_update ((after ops).latch .ASH access data)
        exact (coherent_iff_count ht hdati hnor).trans (hsc ▸ Iff.rfl)

end QUniBone.KE11
