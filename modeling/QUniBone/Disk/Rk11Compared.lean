import QUniBone.Disk.Rk11Data

/-!
# RK11: the loop compared with the reference

* `returns_of_boundary`: the loop of a regular transfer ends as the reference does.
* `not_returns_result`, `result_ne_start`, `not_returns_stale`: the others do not.
* `returns_result_iff`: the comparison.
* `run_result`: a regular transfer from GO to RDY.
-/

namespace QUniBone.RK11

open Disk

namespace Transfer

variable {c : Config} {t : Transfer c} {e : Errors} {k : ℕ}

/-! ## Where a transfer ends -/

section Ends

theorem Stops.le_words (h : t.Stops k) : k ≤ t.words := by
  rcases Nat.eq_zero_or_pos k with hzero | hpos
  · omega
  · have hlast := (h.before (k - 1) (by omega)).1.1
    omega

theorem stops_words (hbefore : ∀ j < t.words, t.Reached j ∧ t.answers (t.busAddress j) = true) :
    t.Stops t.words := ⟨hbefore, fun h => Nat.lt_irrefl _ h.1.1⟩

theorem result_words : t.result e t.words = t.after e t.words := by
  have hreached : ¬t.Reached t.words := fun h => Nat.lt_irrefl _ h.1
  have hlt : ¬(t.words < t.words ∧ ¬t.CheckStops t.words) := fun h => Nat.lt_irrefl _ h.1
  unfold result stopErrors
  rw [if_neg hreached, if_neg hlt]
  rfl

theorem result_of_checkStops (h : t.CheckStops k) : t.result e k = t.after e k := by
  have hreached : ¬t.Reached k := fun hreached => hreached.2.2 h
  unfold result stopErrors
  rw [if_neg hreached, if_neg fun hstop => hstop.2 h]
  rfl

theorem div_mul_of_mod (h : k % t.unit = 0) : k / t.unit * t.unit = k :=
  Nat.div_mul_cancel (Nat.dvd_of_mod_eq_zero h)

/-- At a boundary Write Check looks at all words so far. -/
theorem checkStops_iff (h : t.Boundary k) :
    t.CheckStops k ↔ t.cmd.function = .writeCheck ∧ (t.regs .none).sse = true ∧
      t.differsBefore k = true := by
  unfold CheckStops
  rw [div_mul_of_mod h.mod_unit]

/-- The loop goes on only where the reference does. -/
theorem not_checkStops (h : t.Boundary k) (hgo : k = 0 ∨ t.aborts e k = false) :
    ¬t.CheckStops k := by
  rw [checkStops_iff h]
  rintro ⟨hfunction, hsse, hdiffers⟩
  rcases hgo with hzero | hgo
  · rw [hzero] at hdiffers
    cases hdiffers
  · have hsse' : (t.regs e).sse = true := hsse
    unfold aborts errorsAfter at hgo
    simp [hfunction, hdiffers, hsse'] at hgo

/-- The words of one sector are reached together. -/
theorem Reached.add (h : t.Reached k) (hb : t.Boundary k) {i : ℕ} (hi : i < t.piece k) :
    t.Reached (k + i) := by
  have hlt : i < t.unit := Nat.lt_of_lt_of_le hi piece_le_unit
  have hle := add_piece_le h.1
  have hdiv : (k + i) / t.unit = k / t.unit := by
    have hk := Nat.div_add_mod k t.unit
    rw [hb.mod_unit] at hk
    rw [← hk, Nat.add_zero, Nat.mul_add_div unit_pos, Nat.div_eq_of_lt hlt,
      Nat.mul_div_cancel_left _ unit_pos, Nat.add_zero]
  unfold Reached OnDisk CheckStops
  rw [hdiv]
  exact ⟨by omega, h.2⟩

theorem differsBefore_mono {j : ℕ} (hle : j ≤ k) (h : t.differsBefore j = true) :
    t.differsBefore k = true := by
  unfold differsBefore at *
  rw [List.any_eq_true] at *
  obtain ⟨i, hi, hne⟩ := h
  rw [List.mem_range] at hi
  exact ⟨i, List.mem_range.mpr (by omega), hne⟩

/-- The words before one that is reached are reached. -/
theorem Reached.mono (h : t.Reached k) {j : ℕ} (hle : j ≤ k) : t.Reached j := by
  have hdiv : j / t.unit ≤ k / t.unit := Nat.div_le_div_right hle
  refine ⟨Nat.lt_of_le_of_lt hle h.1, ?_, fun hcheck => h.2.2 ?_⟩
  · have hblock := h.2.1.2.2
    exact ⟨h.2.1.1, h.2.1.2.1, by omega⟩
  · exact ⟨hcheck.1, hcheck.2.1,
      differsBefore_mono (Nat.mul_le_mul_right t.unit hdiv) hcheck.2.2⟩

/-- The words up to the end of a sector, when all answered -/
theorem before_next (hbefore : ∀ j < k, t.Reached j ∧ t.answers (t.busAddress j) = true)
    (hb : t.Boundary k) (hreached : t.Reached k) (hanswers : t.PieceAnswers k) :
    ∀ j < k + t.piece k, t.Reached j ∧ t.answers (t.busAddress j) = true := by
  intro j hj
  rcases Nat.lt_or_ge j k with hlt | hge
  · exact hbefore j hlt
  · have hi : j - k < t.piece k := by omega
    have hindex : k + (j - k) = j := by omega
    rw [← hindex]
    exact ⟨hreached.add hb hi, hanswers _ hi⟩

/-- When the loop leaves after a sector of Write Check, the reference stops there too. -/
theorem stops_of_aborts (hreg : t.Regular) (hb : t.Boundary k) (hreached : t.Reached k)
    (hgo : k = 0 ∨ t.aborts e k = false)
    (hbefore : ∀ j < k + t.piece k, t.Reached j ∧ t.answers (t.busAddress j) = true)
    (habort : t.aborts e (k + t.piece k) = true) :
    t.Stops (k + t.piece k) ∧ t.result e (k + t.piece k) = t.after e (k + t.piece k) := by
  have hlt := hreached.1
  have hle := add_piece_le hlt
  rcases Nat.eq_or_lt_of_le hle with hend | hmore
  · rw [hend]
    rw [hend] at hbefore
    exact ⟨stops_words hbefore, result_words⟩
  · have hnext : t.Boundary (k + t.piece k) := by
      rcases hb.next hreached.2.1.2.1 with hnext | hend | hend
      · exact hnext
      · omega
      · omega
    unfold aborts errorsAfter at habort
    simp only [Bool.and_eq_true, Bool.or_eq_true, decide_eq_true_eq] at habort
    obtain ⟨⟨hfunction, hwce⟩, hsse⟩ := habort
    have hdiffers : t.differsBefore (k + t.piece k) = true := by
      rcases hwce with hstale | hwrong
      · -- the bit of an earlier command: only the first sector comes after it
        have hzero : k = 0 := by
          rcases hgo with hzero | hgo
          · exact hzero
          · unfold aborts errorsAfter at hgo
            simp [hfunction, hstale, hsse] at hgo
        have hunit : t.unit = sectorWords := unit_of_ne_read (by simp [hfunction])
        have hdisk : t.OnDisk 0 := hzero ▸ hreached.2.1
        have hpiece : k + t.piece k = sectorWords := by
          unfold piece at hmore ⊢
          rw [hunit] at hmore ⊢
          omega
        rcases hreg.check hfunction hsse hdisk with hwords | hdiffers
        · omega
        · rw [hpiece]
          exact hdiffers
      · exact hwrong.2
    have hstops : t.CheckStops (k + t.piece k) :=
      (checkStops_iff hnext).mpr ⟨hfunction, hsse, hdiffers⟩
    exact ⟨⟨hbefore, fun h => h.1.2.2 hstops⟩, result_of_checkStops hstops⟩

end Ends

/-! ## Runs of the loop -/

section Runs

/-- From the top of any round the loop of a regular transfer ends as the reference does. -/
theorem returns_of_boundary (hreg : t.Regular) (hb : k = t.words ∨ t.Boundary k)
    (hle : k ≤ t.words) (hbefore : ∀ j < k, t.Reached j ∧ t.answers (t.busAddress j) = true)
    (hgo : k = 0 ∨ t.aborts e k = false) :
    ∃ n, t.Stops n ∧ Loop.Returns (round c t.answers t.drivePresent) (t.after e k, t.cursor k)
      (some (t.result e n)) := by
  -- by the number of words left
  induction hleft : t.words - k using Nat.strong_induction_on generalizing k with
  | _ left ih =>
    rcases Nat.eq_or_lt_of_le hle with hend | hlt
    · subst hend
      refine ⟨t.words, stops_words hbefore, ?_⟩
      rw [result_words]
      exact Loop.returns_of_inl round_words
    · have hb : t.Boundary k := hb.resolve_left (by omega)
      have hcheck := not_checkStops hb hgo
      by_cases hdisk : t.OnDisk k
      · have hreached : t.Reached k := ⟨hlt, hdisk, hcheck⟩
        have hanswers : t.PieceAnswers k := fun i hi => hreg.answers _ (hreached.add hb hi)
        have hnext := before_next hbefore hb hreached hanswers
        have hround := round_piece (e := e) hb hlt hdisk hanswers
        cases habort : t.aborts e (k + t.piece k) with
        | true =>
          obtain ⟨hstops, hresult⟩ := stops_of_aborts hreg hb hreached hgo hnext habort
          rw [habort, if_pos rfl, ← hresult] at hround
          exact ⟨_, hstops, Loop.returns_of_inl hround⟩
        | false =>
          have hpos := piece_pos hlt
          have hle := add_piece_le hlt
          have hboundary : k + t.piece k = t.words ∨ t.Boundary (k + t.piece k) := by
            rcases hb.next hdisk.2.1 with hnext | hend | hend
            · exact Or.inr hnext
            · exact Or.inl hend
            · omega
          obtain ⟨n, hstops, hreturns⟩ := ih (t.words - (k + t.piece k)) (by omega) hboundary hle
            hnext (Or.inr habort) rfl
          rw [habort, if_neg Bool.false_ne_true] at hround
          exact ⟨n, hstops, Loop.returns_of_inr hround hreturns⟩
      · refine ⟨k, ⟨hbefore, fun h => hdisk h.1.2.1⟩, ?_⟩
        exact Loop.returns_of_inl (round_offDisk hb hlt hdisk hcheck)

/-- When an address does not answer, the loop does not end as the reference does. -/
theorem not_returns_result {n : ℕ} (hcount : t.words < 2 ^ 15) (hstops : t.Stops n)
    (hreached : t.Reached n) (hb : t.Boundary k) (hle : k ≤ n)
    (hgo : k = 0 ∨ t.aborts .none k = false) :
    ¬Loop.Returns (round c t.answers t.drivePresent) (t.after .none k, t.cursor k)
      (some (t.result .none n)) := by
  intro hreturns
  -- by the number of words up to that address
  induction hleft : n - k using Nat.strong_induction_on generalizing k with
  | _ left ih =>
    have hlt : k < t.words := Nat.lt_of_le_of_lt hle hreached.1
    have hdisk : t.OnDisk k := by
      rcases Nat.eq_or_lt_of_le hle with heq | hbefore
      · exact heq ▸ hreached.2.1
      · exact (hstops.before k hbefore).1.2.1
    rcases Nat.lt_or_ge n (k + t.piece k) with hhere | hlater
    · have hanswers : ¬t.PieceAnswers k := by
        intro hanswers
        have hindex : k + (n - k) = n := by omega
        exact hstops.here ⟨hreached, hindex ▸ hanswers (n - k) (by omega)⟩
      rcases round_nonexistent (e := .none) hb hlt hdisk hanswers with hround | ⟨m, hround, hrkwc⟩
      · have hsame := hreturns.unique (Loop.returns_of_inl hround)
        cases hsame
      · have hsame := Option.some.inj (hreturns.unique (Loop.returns_of_inl hround))
        have hends := add_piece_le hlt
        have hword : t.rkwc + BitVec.ofNat 16 n = t.rkwc + BitVec.ofNat 16 (k + t.piece k) := by
          rw [← hrkwc, ← hsame]
          rfl
        have hnat := congrArg BitVec.toNat (BitVec.add_right_inj _ |>.mp hword)
        rw [BitVec.toNat_ofNat, BitVec.toNat_ofNat] at hnat
        omega
    · have hpos := piece_pos hlt
      have hanswers : t.PieceAnswers k := fun i hi => (hstops.before (k + i) (by omega)).2
      have hnext : t.Boundary (k + t.piece k) := by
        have hend := hreached.1
        rcases hb.next hdisk.2.1 with hnext | heq | hgt
        · exact hnext
        · omega
        · omega
      have hreachedNext : t.Reached (k + t.piece k) := by
        rcases Nat.eq_or_lt_of_le hlater with heq | hbefore
        · exact heq ▸ hreached
        · exact (hstops.before _ hbefore).1
      have habort : t.aborts .none (k + t.piece k) = false := by
        rw [Bool.eq_false_iff]
        intro habort
        unfold aborts errorsAfter at habort
        simp only [Bool.and_eq_true, Bool.or_eq_true, decide_eq_true_eq] at habort
        obtain ⟨⟨hfunction, hwce⟩, hsse⟩ := habort
        have hdiffers := hwce.resolve_left Bool.false_ne_true
        exact hreachedNext.2.2 ((checkStops_iff hnext).mpr ⟨hfunction, hsse, hdiffers.2⟩)
      have hround := round_piece (e := .none) hb hlt hdisk hanswers
      rw [habort, if_neg Bool.false_ne_true] at hround
      exact ih (n - (k + t.piece k)) (by omega) hnext hlater (Or.inr habort)
        ((Loop.returns_iff_of_inr hround).mp hreturns) rfl

end Runs

/-! ## The comparison -/

section Comparison

theorem differsBefore_zero : t.differsBefore 0 = false := rfl

theorem errorsAfter_zero : t.errorsAfter e 0 = e := by
  unfold errorsAfter
  simp [differsBefore_zero]

theorem diskAfter_zero : t.diskAfter 0 = t.disks t.first.drive := by
  funext i
  have hend := roundUp_of_mod (n := 0) rfl (Nat.zero_le sectorWords)
  rw [if_pos rfl] at hend
  unfold diskAfter
  dsimp only
  rw [hend, if_neg (by omega)]

/-- Nothing is done before the first word. -/
theorem after_zero : t.after e 0 = (t.start e).1 := by
  unfold after start addressAfter
  simp only [errorsAfter_zero, diskAfter_zero, or_true, ↓reduceIte, BitVec.add_zero,
    Nat.lt_irrefl, and_false, Function.update_eq_self, ite_self, memoryAfter]
  rfl

theorem start_eq (h : t.words < 2 ^ 15) : t.start e = (t.after e 0, t.cursor 0) := by
  have hcount := count_eq (e := e) h
  rw [after_zero]
  unfold start cursor busAddress
  rw [hcount]
  simp

/-- At 2^15 words and more the loop ends at once. -/
theorem returns_start (h : 2 ^ 15 ≤ t.words) : t.Returns e (t.start e).1 := by
  have hcount : (t.start e).2.currentCount ≤ 0 := count_nonpos h
  refine Loop.returns_of_inl ?_
  unfold round
  simp only
  rw [if_pos hcount]

/-- An end before the last word that is not one of Write Check is an error. -/
theorem stopErrors_he (h : k < t.words) (hcheck : ¬t.CheckStops k) :
    (t.stopErrors e k).he = true := by
  unfold stopErrors
  split
  · rfl
  · rw [if_pos ⟨h, hcheck⟩]

/-- The reference does something. -/
theorem result_ne_start {n : ℕ} (h : t.Stops n) : t.result .none n ≠ (t.start .none).1 := by
  intro heq
  rcases Nat.eq_zero_or_pos n with hzero | hpos
  · -- without a word an error is set
    have hhe : (t.stopErrors .none 0).he = false := by
      rw [hzero] at heq
      exact congrArg (fun m : Machine => m.regs.errors.he) heq
    have hcheck : ¬t.CheckStops 0 := not_checkStops (e := .none) boundary_zero (Or.inl rfl)
    rw [stopErrors_he words_pos hcheck] at hhe
    cases hhe
  · -- with one, RKDA names another sector
    have hvalid := (h.before 0 hpos).1.2.1.2.1
    have hrkda : t.addressAfter n = t.first :=
      congrArg (fun m : Machine => m.regs.rkda) heq
    have hsectors : 0 < t.sectors n := Nat.div_pos (by omega) unit_pos
    have hblock := congrArg DiskAddress.block hrkda
    unfold addressAfter at hblock
    rw [if_neg (by omega), DiskAddress.block_ofBlock] at hblock
    omega

/-- With the bit of an earlier command Write Check stops after its first sector. -/
theorem not_returns_stale (hcount : t.words < 2 ^ 15)
    (hanswers : ∀ k, t.Reached k → t.answers (t.busAddress k) = true)
    (hfunction : t.cmd.function = .writeCheck) (hsse : (t.regs .none).sse = true)
    (hdisk : t.OnDisk 0) (hwords : sectorWords < t.words)
    (hdiffers : t.differsBefore sectorWords = false) {n : ℕ} (hstops : t.Stops n) :
    ¬t.Returns { Errors.none with wce := true } (t.result { Errors.none with wce := true } n) := by
  intro hreturns
  let e : Errors := { Errors.none with wce := true }
  have hunit : t.unit = sectorWords := unit_of_ne_read (by simp [hfunction])
  have hcheck : ¬t.CheckStops 0 := not_checkStops (e := e) boundary_zero (Or.inl rfl)
  have hreached : t.Reached 0 := ⟨words_pos, hdisk, hcheck⟩
  have hpiece : t.piece 0 = sectorWords := by
    unfold piece
    rw [hunit]
    omega
  have hall : t.PieceAnswers 0 := fun i hi => hanswers _ (hreached.add boundary_zero hi)
  have hround := round_piece (e := e) boundary_zero words_pos hdisk hall
  have habort : t.aborts e (0 + t.piece 0) = true := by
    have hsse' : (t.regs e).sse = true := hsse
    unfold aborts errorsAfter
    simp [hfunction, hsse', e]
  rw [habort, if_pos rfl, hpiece, Nat.zero_add, ← start_eq hcount] at hround
  have hsame : t.result e n = t.after e sectorWords :=
    Option.some.inj (hreturns.unique (Loop.returns_of_inl hround))
  have hnext : t.Boundary sectorWords := by
    have hmod : sectorWords % t.unit = 0 := by rw [hunit]; rfl
    exact ⟨hmod, fun _ => hdisk.2.1⟩
  have hgo : ¬t.CheckStops sectorWords := by
    rw [checkStops_iff hnext, hdiffers]
    exact fun h => Bool.false_ne_true h.2.2
  rcases Nat.lt_trichotomy n sectorWords with hlt | heq | hgt
  · -- the words of the first sector answer
    have hn := hreached.add boundary_zero (i := n) (by rw [hpiece]; exact hlt)
    rw [Nat.zero_add] at hn
    exact hstops.here ⟨hn, hanswers n hn⟩
  · -- the reference would have set an error
    have hhe : (t.stopErrors e n).he = false := by
      have h := congrArg (fun m : Machine => m.regs.errors.he) hsame
      exact h
    rw [heq, stopErrors_he hwords hgo] at hhe
    cases hhe
  · -- the reference has moved more words
    have hword : t.rkwc + BitVec.ofNat 16 n = t.rkwc + BitVec.ofNat 16 sectorWords :=
      congrArg (fun m : Machine => m.regs.rkwc) hsame
    have hnat := congrArg BitVec.toNat ((BitVec.add_right_inj _).mp hword)
    have hle := hstops.le_words
    rw [BitVec.toNat_ofNat, BitVec.toNat_ofNat] at hnat
    omega

/-- The loop transfers the words that it should, and leaves the registers as it should, whatever the
errors before are, iff the transfer is regular. -/
theorem returns_result_iff (t : Transfer c) :
    (∀ e, ∃ k, t.Stops k ∧ t.Returns e (t.result e k)) ↔ t.Regular := by
  constructor
  · intro h
    obtain ⟨n, hstops, hreturns⟩ := h .none
    have hcount : t.words < 2 ^ 15 := by
      by_contra hge
      have hstart := returns_start (e := .none) (Nat.not_lt.mp hge)
      exact result_ne_start hstops (Option.some.inj (hreturns.unique hstart))
    have hanswers : ∀ k, t.Reached k → t.answers (t.busAddress k) = true := by
      intro k hk
      by_contra hnot
      -- the reference ends at the first address that does not answer
      have hle : n ≤ k := by
        by_contra hlt
        exact hnot (hstops.before k (Nat.not_le.mp hlt)).2
      rw [Returns, start_eq hcount] at hreturns
      exact not_returns_result hcount hstops (hk.mono hle) boundary_zero (Nat.zero_le n)
        (Or.inl rfl) hreturns
    refine ⟨hcount, hanswers, fun hfunction hsse hdisk => ?_⟩
    by_contra hnot
    rw [not_or, Nat.not_le, Bool.not_eq_true] at hnot
    obtain ⟨k, hk, hstale⟩ := h { Errors.none with wce := true }
    exact not_returns_stale hcount hanswers hfunction hsse hdisk hnot.1 hnot.2 hk hstale
  · intro hreg e
    unfold Returns
    rw [start_eq hreg.count]
    exact returns_of_boundary hreg (Or.inr boundary_zero) (Nat.zero_le _)
      (fun j hj => absurd hj (Nat.not_lt_zero j)) (Or.inl rfl)

/-- Read of 2^15 words: nothing is read, and no error is set. -/
theorem long_read_ends_at_once :
    ¬∀ (t : Transfer ⟨2 ^ 18, false⟩) (e : Errors),
      ∃ k, t.Stops k ∧ t.Returns e (t.result e k) := by
  intro h
  let t : Transfer ⟨2 ^ 18, false⟩ :=
    { rkcs := 0x0005
      rkwc := 0x8000
      rkba := 0
      rkda := 0
      isTransfer := by decide
      drivePresent := true
      answers := fun a => decide (a + 2 ≤ 0o760000)
      answers_inSpace := fun a ha => (of_decide_eq_true ha).trans (by decide)
      rkdb := 0
      memory := fun _ => 0
      disks := fun _ _ => 1 }
  obtain ⟨k, hstops, hreturns⟩ := h t .none
  have hstart : t.Returns .none (t.start .none).1 := returns_start (by decide)
  exact result_ne_start hstops (Option.some.inj (hreturns.unique hstart))

end Comparison

/-! ## From GO to RDY -/

section Commands

open Transition

/-- The guest writes the registers and GO, and the worker takes the command. -/
def commands (t : Transfer c) : List Action :=
  [.writeRKWC t.rkwc, .writeRKBA t.rkba, .writeRKDA t.rkda, .writeRKCS (t.rkcs ||| 1) true,
    .accept, .execute t.drivePresent]

theorem writeRKCS_go (r : Registers) (w : BitVec 16) :
    r.writeRKCS (w ||| 1) = { r.writeRKCS w with go := true } := by
  simp [Registers.writeRKCS, BitVec.ushiftRight_or_distrib]

theorem run_commands (e : Errors) (hgo : t.rkcs.getLsbD 0 = false)
    (hformat : t.cmd.format = true → t.cmd.function ≠ .writeCheck) :
    ∃ s, run (step c) { State.initial with regs := { Registers.initial with errors := e } }
      t.commands = some s ∧ AtTop s (t.start e).1 (t.start e).2 := by
  let s : State := { State.initial with regs := { t.regs e with go := true, rdy := true } }
  let u : State :=
    { (s.start c).update t.cmd.command { t.regs e with go := false } with newCommand := none }
  have hgoes : s.go c true = s.start c := by
    have hformat : s.regs.fmt = true → s.regs.function ≠ .writeCheck := hformat
    have hfunction : s.regs.function.isTransfer = true := t.isTransfer
    unfold State.go
    cases h : s.regs.function <;> simp_all [Function.isTransfer]
  have hregs : Registers.writeRKCS { Registers.initial with
      errors := e, rkwc := t.rkwc, rkba := t.rkba, rkda := .ofWord t.rkda } (t.rkcs ||| 1) =
        s.regs := writeRKCS_go _ _
  have hexecute : execute { u with worker := .execute t.cmd } t.cmd t.drivePresent =
      { u with worker := .looping (t.start e).2 } := by
    have hfunction : t.cmd.function.isTransfer = true := t.isTransfer
    unfold execute
    cases h : t.cmd.function <;> first | rfl | (rw [h] at hfunction; cases hfunction)
  have hwritten : (t.rkcs ||| 1).getLsbD 0 = true := by simp
  refine ⟨{ u with worker := .looping (t.start e).2 }, ?_, rfl,
    congrArg (fun b => { t.regs e with go := b }) hgo.symm, rfl, rfl⟩
  show (if (t.rkcs ||| 1).getLsbD 0 then _ else _ : Option State).bind _ = _
  rw [if_pos hwritten, hregs]
  show (run (step c) (s.go c true) [.accept, .execute t.drivePresent]) = _
  rw [hgoes, ← hexecute]
  rfl

/-- The registers of a regular transfer end as they should, RDY set. -/
theorem run_result (e : Errors) (hreg : t.Regular) (hgo : t.rkcs.getLsbD 0 = false)
    (hformat : t.cmd.format = true → t.cmd.function ≠ .writeCheck) : ∃ k, t.Stops k ∧
      ∃ as s, run (step c) { State.initial with regs := { Registers.initial with errors := e } }
        (t.commands ++ as) = some s ∧ s.worker = .idle ∧
          s.regs = { (t.result e k).regs with rdy := true } := by
  obtain ⟨k, hk, hreturns⟩ : ∃ k, t.Stops k ∧ t.Returns e (t.result e k) := by
    unfold Returns
    rw [start_eq hreg.count]
    exact returns_of_boundary hreg (Or.inr boundary_zero) (Nat.zero_le _)
      (fun j hj => absurd hj (Nat.not_lt_zero j)) (Or.inl rfl)
  obtain ⟨s, hs, htop⟩ := run_commands e hgo hformat
  obtain ⟨as, u, hu, hregs, hworker⟩ := run_returns htop hreturns
  have hfinish : step c u .finish = some (finish u t.cmd true) := by
    unfold step
    rw [hworker]
    rfl
  refine ⟨k, hk, as ++ [.finish], finish u t.cmd true, ?_, ?_⟩
  · simp only [run_append, hs, hu, Option.bind_some, run, hfinish]
  · unfold finish
    rw [← hregs]
    split <;> exact ⟨rfl, rfl⟩

/-- Read of one word -/
def readOne : Transfer ⟨2 ^ 18, false⟩ where
  rkcs := 4
  rkwc := 0xffff
  rkba := 0
  rkda := 0
  isTransfer := by decide
  drivePresent := true
  answers a := decide (a + 2 ≤ 0o760000)
  answers_inSpace _ ha := (of_decide_eq_true ha).trans (by decide)
  rkdb := 0
  memory _ := 0
  disks _ _ := 1

theorem run_result_readOne : ∃ as s, run (step ⟨2 ^ 18, false⟩) State.initial
    (readOne.commands ++ as) = some s ∧ s.worker = .idle ∧ s.regs.rdy = true := by
  have hreg : readOne.Regular := by
    refine ⟨by decide, fun k hk => ?_, fun h => absurd h (by decide)⟩
    have hlt : k < 1 := hk.1
    obtain rfl : k = 0 := by omega
    decide
  obtain ⟨k, -, as, s, hs, hworker, hregs⟩ := readOne.run_result .none hreg (by decide) (by decide)
  exact ⟨_, s, hs, hworker, congrArg Registers.rdy hregs⟩

end Commands

end Transfer

end QUniBone.RK11
