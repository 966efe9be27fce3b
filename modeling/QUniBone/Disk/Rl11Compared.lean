import QUniBone.Disk.Rl11Transfer

/-!
# RL11: the loop and the reference

From sector to sector the loop comes to where the transfer stops. There it leaves the reference's
machine, but for MP after a bus address that does not answer, and for the result of Write Check.

* `exists_reaches_at`: the loop comes to every sector before the end.
* `returns_of_stops`, `returns_none`: how it ends.
* `meets_reference_iff`: when it does what it should.
* `run_regsAfter`: a regular transfer from GO to CRDY.
-/

namespace QUniBone.RL11

open Disk

namespace Transfer

variable {c : Config} {t : Transfer} {k n : ℕ} {m : Machine}

/-! ## The ends -/

theorem round_ready (h : m.regs.state = .controllerReady) :
    round c t.answers m = .inl (some m) := by
  unfold round
  rw [h]

/-- All words are moved. -/
theorem returns_of_done (h : t.At n m) (hdone : ¬n * sectorWordcount < t.words) :
    Loop.Returns (round c t.answers) m (some m) := by
  have hstate : m.regs.state = .controllerReady := by rw [h.regs, regsAt_state, if_neg hdone]
  exact Loop.returns_of_inl (round_ready hstate)

/-- The registers when there is no sector -/
def regsNotFound (t : Transfer) (n : ℕ) : Registers :=
  { t.regsAt n with
    state := .controllerReady
    errorOperationIncomplete := true
    errorHeaderNotFound := true }

/-- There is no sector for the next words. -/
theorem returns_notFound (h : t.At n m) (hleft : n * sectorWordcount < t.words)
    (hbound : t.sector + n < 64) (hnot : ¬t.Addressed n) :
    ∃ m', Loop.Returns (round c t.answers) m (some m') ∧
      t.Leaves n (t.count n) (t.regsNotFound n) m' := by
  have hcount : ¬m.regs.getMPWordcount = 0 := by
    rw [h.regs, regsAt_getMPWordcount]
    omega
  have hheader : ¬m.regs.functionCode = .readDataWithoutHeaderCheck := by
    rw [h.regs, regsAt_functionCode]
    obtain hf | hf | hf := t.function_cases <;> rw [hf] <;> decide
  have htrack : ¬m.drive.headerOnTrack m.regs.busregDA = true := by
    rw [h.regs, regsAt_busregDA, headerOnTrack_iff h.cylinder h.head hbound]
    exact hnot
  let m' : Machine :=
    { m with regs := { m.regs with errorHeaderNotFound := true } }.operationIncomplete
  have hround : round c t.answers m = .inr m' := by
    rw [round_rwDisk h hleft]
    unfold Machine.rwDisk
    rw [if_neg hcount, if_neg hheader, if_neg htrack]
  refine ⟨m', Loop.returns_of_inr hround (Loop.returns_of_inl (round_ready rfl)), ?_⟩
  refine ⟨?_, h.memory, h.image, h.errorWge, h.cylinder, h.head, h.writeLock⟩
  show ({ m.regs with
    state := .controllerReady
    errorOperationIncomplete := true
    errorHeaderNotFound := true } : Registers) = _
  rw [h.regs]
  rfl

/-- The transfer of the next sector -/
theorem exists_found_round (h : t.At n m) (hreached : t.Reached (n * sectorWordcount)) :
    ∃ m' m'' header, Loop.Reaches (round c t.answers) m m' ∧ t.Found n m'' ∧
      round c t.answers m' =
        if (t.call n).Asserted c.space then
          .inr (m''.transferred t.answers (m''.piece header) (t.call n))
        else .inl none := by
  obtain ⟨hleft, haddressed⟩ := reached_iff.mp hreached
  obtain ⟨m', hreaches, hat, hhit⟩ := exists_found (c := c) h hleft haddressed
  obtain ⟨m'', header, hfound, hround⟩ := round_found (c := c) hat hleft haddressed hhit
  exact ⟨m', m'', header, hreaches, hfound, hround.trans (hfound.transfer hleft header)⟩

/-- The assertions of `DMA()` -/
theorem returns_none_of_call (h : t.At n m) (hreached : t.Reached (n * sectorWordcount))
    (hcall : ¬(t.call n).Asserted c.space) : Loop.Returns (round c t.answers) m none := by
  obtain ⟨m', m'', header, hreaches, hfound, hround⟩ := exists_found_round (c := c) h hreached
  rw [if_neg hcall] at hround
  exact hreaches.returns_iff.mpr (Loop.returns_of_inl hround)

/-- A sector whose words all have bus addresses that answer -/
theorem exists_reaches_succ (h : t.At n m) (hreached : t.Reached (n * sectorWordcount))
    (hcall : (t.call n).Asserted c.space) (hall : t.arrived n = (t.call n).wordcount) :
    ∃ m', Loop.Reaches (round c t.answers) m m' ∧ t.At (n + 1) m' := by
  obtain ⟨m', m'', header, hreaches, hfound, hround⟩ := exists_found_round (c := c) h hreached
  rw [if_pos hcall] at hround
  exact ⟨_, hreaches.tail hround, hfound.complete hreached.1 hall header⟩

/-- One of them does not. -/
theorem returns_nonexistent (h : t.At n m) (hreached : t.Reached (n * sectorWordcount))
    (hcall : (t.call n).Asserted c.space) (hnot : t.arrived n ≠ (t.call n).wordcount) :
    ∃ m', Loop.Returns (round c t.answers) m (some m') ∧
      t.Leaves n (n * sectorWordcount + t.arrived n) (t.regsNonexistent n) m' := by
  obtain ⟨m', m'', header, hreaches, hfound, hround⟩ := exists_found_round (c := c) h hreached
  rw [if_pos hcall] at hround
  have hleaves := hfound.nonexistent hreached.1 hnot header
  have hready : (m''.transferred t.answers (m''.piece header) (t.call n)).regs.state =
      .controllerReady := by
    rw [hleaves.regs]
    rfl
  refine ⟨_, hreaches.returns_iff.mpr ?_, hleaves⟩
  exact Loop.returns_of_inr hround (Loop.returns_of_inl (round_ready hready))

/-! ## From the start to the end -/

theorem count_zero : t.count 0 = 0 := by
  unfold count
  rw [Nat.zero_mul, Nat.zero_min]

theorem regsAt_zero : t.regsAt 0 = t.regs.clearErrors.changeState
    (if t.regs.getMPWordcount = 0 then .controllerReady else .rwDisk) := by
  have hbus : t.regs.updateQunibusAddress (t.busAddress 0) = t.regs := by
    unfold busAddress
    rw [Nat.mul_zero, Nat.add_zero, update_getQunibusAddress t.even]
  have hMP : t.regs.setMPWordcount (t.words - 0 * sectorWordcount) = t.regs := by
    rw [Nat.zero_mul, Nat.sub_zero]
    exact set_getMPWordcount t.regs
  have hstate : (if 0 * sectorWordcount < t.words then ControllerState.rwDisk
      else .controllerReady) =
      if t.regs.getMPWordcount = 0 then .controllerReady else .rwDisk := by
    have hwords : t.words = t.regs.getMPWordcount := rfl
    rw [Nat.zero_mul, hwords]
    split <;> split <;> first | rfl | omega
  have hcheck : t.checked 0 = false := decide_eq_false fun h => Nat.lt_irrefl 0 h.2.1
  unfold regsAt
  rw [count_zero, hbus, hMP, hstate, hcheck, BitVec.add_zero]
  rfl

/-- `RL11_STATE_RW_INIT` -/
theorem exists_reaches_zero (t : Transfer) :
    ∃ m, Loop.Reaches (round c t.answers) t.start m ∧ t.At 0 m := by
  have hround : round c t.answers t.start = .inr t.start.rwInit := by
    have hstate : t.start.regs.state = .rwInit := t.rwInit
    unfold round
    rw [hstate]
    exact if_pos t.isTransfer
  have hinit : t.start.rwInit = { t.start with
      regs := t.regs.clearErrors.changeState
        (if t.regs.getMPWordcount = 0 then .controllerReady else .rwDisk) } := by
    unfold Machine.rwInit
    dsimp only
    show (if t.regs.getMPWordcount = 0 then _ else _) = _
    split <;> rfl
  refine ⟨_, .single hround, ?_⟩
  rw [hinit, ← regsAt_zero]
  refine ⟨rfl, ?_, ?_, ?_, rfl, rfl, rfl⟩
  · rw [count_zero]
    exact (ite_self t.memory).symm
  · have himage : t.imageAfter 0 (t.count 0) = t.drive.image := by
      funext i
      exact if_neg (by omega)
    rw [himage, ite_self]
    rfl
  · exact (if_neg fun h => Nat.lt_irrefl 0 h.2).symm

theorem Stops.unique {l : ℕ} (hk : t.Stops k) (hl : t.Stops l) : k = l := by
  rcases Nat.lt_trichotomy k l with hlt | heq | hgt
  · exact absurd (hl.before k hlt) hk.here
  · exact heq
  · exact absurd (hk.before l hgt) hl.here

/-- The transfer ends somewhere. -/
theorem exists_stops (t : Transfer) : ∃ k, t.Stops k := by
  have hex : ∃ k, ¬(t.Reached k ∧ t.answers (t.busAddress k) = true) :=
    ⟨t.words, fun h => Nat.lt_irrefl _ h.1.1⟩
  refine ⟨Nat.find hex, fun j hj => ?_, Nat.find_spec hex⟩
  exact not_not.mp (Nat.find_min hex hj)

theorem Stops.le_words (h : t.Stops k) : k ≤ t.words := by
  by_contra hlt
  exact Nat.lt_irrefl _ (h.before t.words (Nat.not_le.mp hlt)).1.1

/-- The sector of a word that is transferred -/
theorem Reached.sector (h : t.Reached k) : t.Reached (k / sectorWordcount * sectorWordcount) := by
  have hle := Nat.div_mul_le_self k sectorWordcount
  have hdiv : k / sectorWordcount * sectorWordcount / sectorWordcount = k / sectorWordcount :=
    Nat.mul_div_cancel _ (by decide)
  exact ⟨Nat.lt_of_le_of_lt hle h.1, h.2.1, by rw [hdiv]; exact h.2.2⟩

/-- How many words of a sector arrive, if the transfer ends in it or behind it -/
theorem Stops.arrived (h : t.Stops k) (hn : n * sectorWordcount ≤ k)
    (hreached : t.Reached (n * sectorWordcount)) :
    t.arrived n = min (t.call n).wordcount (k - n * sectorWordcount) := by
  have hwordcount : (t.call n).wordcount = min 128 (t.words - n * 128) := rfl
  have hle := h.le_words
  by_cases hhere : t.Reached k
  · -- it ends at a bus address
    have hnot : t.answers (t.busAddress k) = false := by
      rw [← Bool.not_eq_true]
      exact fun hanswers => h.here ⟨hhere, hanswers⟩
    refine answered_eq_min (fun i hi => ?_) ?_ _
    · show t.answers (t.busAddress (n * sectorWordcount) + 2 * i) = true
      rw [busAddress_add]
      exact (h.before _ (by omega)).2
    · show t.answers (t.busAddress (n * sectorWordcount) + 2 * (k - n * sectorWordcount)) = false
      rw [busAddress_add, Nat.add_sub_cancel' hn]
      exact hnot
  · -- all words of the sector are before the end
    have hbehind : (t.call n).wordcount ≤ k - n * sectorWordcount := by
      by_contra hlt
      have hk : k < n * 128 + min 128 (t.words - n * 128) := by
        unfold sectorWordcount at hlt hn
        omega
      have hsame : k / 128 = n := by
        unfold sectorWordcount at hn
        omega
      refine hhere ⟨by omega, hreached.2.1, ?_⟩
      have hsector := (reached_iff.mp hreached).2.2
      show t.sector + k / 128 < 40
      omega
    rw [Nat.min_eq_left hbehind]
    refine answered_eq_iff.mpr fun i hi => ?_
    show t.answers (t.busAddress (n * sectorWordcount) + 2 * i) = true
    rw [busAddress_add]
    exact (h.before _ (by omega)).2

/-- The loop comes to every sector before the end. -/
theorem exists_reaches_at (h : t.Stops k) (hn : n * sectorWordcount ≤ k)
    (hcalls : ∀ i < n, (t.call i).Asserted c.space) :
    ∃ m, Loop.Reaches (round c t.answers) t.start m ∧ t.At n m := by
  induction n with
  | zero => exact t.exists_reaches_zero
  | succ n ih =>
    have hlt : n * sectorWordcount + sectorWordcount ≤ k := by
      rw [← Nat.succ_mul]
      exact hn
    have hpos : 0 < sectorWordcount := by decide
    obtain ⟨m, hm, hat⟩ := ih (by omega) fun i hi => hcalls i (Nat.lt_succ_of_lt hi)
    have hreached := (h.before (n * sectorWordcount) (by omega)).1
    have hall : t.arrived n = (t.call n).wordcount := by
      have hle : (t.call n).wordcount ≤ sectorWordcount := Nat.min_le_left _ _
      rw [h.arrived (by omega) hreached]
      omega
    obtain ⟨m', hm', hat'⟩ :=
      exists_reaches_succ hat hreached (hcalls n (Nat.lt_succ_self n)) hall
    exact ⟨m', hm.trans hm', hat'⟩

/-- Without a sector for the next words, all sectors before are whole. -/
theorem Stops.notFound (h : t.Stops k) (hleft : k < t.words) (hnot : ¬t.Reached k) :
    k % sectorWordcount = 0 ∧ ¬t.Addressed (k / sectorWordcount) ∧
      t.sector + k / sectorWordcount < 64 := by
  have hsector : t.sector < 64 := by
    rw [sector_eq]
    exact Nat.mod_lt _ (by decide)
  have hprevious : 0 < k → t.OnTrack ∧ t.sector + (k - 1) / sectorWordcount < 40 :=
    fun hpos => (h.before (k - 1) (by omega)).1.2
  have hnone : ¬(t.OnTrack ∧ t.sector + k / sectorWordcount < 40) := fun hon => hnot ⟨hleft, hon⟩
  unfold sectorWordcount at hprevious hnone ⊢
  refine ⟨?_, hnone, ?_⟩
  · by_contra hmod
    obtain ⟨hon, hlt⟩ := hprevious (by omega)
    exact hnone ⟨hon, by omega⟩
  · rcases Nat.eq_zero_or_pos k with rfl | hpos
    · omega
    · have hlt := (hprevious hpos).2
      omega

/-- The registers that the loop leaves: MP counts whole sectors only, and Write Check tells about
the last one. -/
def regsLeft (t : Transfer) (k : ℕ) : Registers :=
  { (t.regs.updateQunibusAddress (t.busAddress k + if t.Reached k then 2 else 0)).setMPWordcount
      (t.words - t.sectors k * sectorWordcount) with
    busregDA := t.regs.busregDA + BitVec.ofNat 16 (t.sectors k)
    state := .controllerReady
    errorOperationIncomplete := decide (k < t.words)
    errorDmaTimeout := decide (t.Reached k)
    errorWritecheck := t.checked (t.sectors k)
    errorHeaderNotFound := decide (k < t.words ∧ ¬t.Reached k) }

/-- Where the call of each sector passes the assertions of `DMA()` -/
def CallsAsserted (c : Config) (t : Transfer) (k : ℕ) : Prop :=
  ∀ n, n * sectorWordcount ≤ k → t.Reached (n * sectorWordcount) → (t.call n).Asserted c.space

/-- All words are moved. -/
theorem regsLeft_of_done (hdone : k = t.words) (hn : t.sectors k = n)
    (hcover : t.words ≤ n * sectorWordcount) : t.regsLeft k = t.regsAt n := by
  have hreached : ¬t.Reached k := fun h => Nat.lt_irrefl _ (hdone ▸ h.1)
  have hleft : ¬k < t.words := by omega
  have hcount : t.count n = k := by
    unfold count
    omega
  unfold regsLeft regsAt
  rw [if_neg hreached, if_neg (Nat.not_lt.mpr hcover), hcount, hn, decide_eq_false hleft,
    decide_eq_false hreached, decide_eq_false fun h => hleft h.1, Nat.add_zero]

theorem returns_of_done_at (hdone : k = t.words)
    (hm : Loop.Reaches (round c t.answers) t.start m) (hat : t.At n m) (hn : t.sectors k = n)
    (hcover : t.words ≤ n * sectorWordcount) :
    ∃ m, t.Returns c m ∧ t.Leaves (t.sectors k) k (t.regsLeft k) m := by
  have hcount : t.count n = k := by
    unfold count
    omega
  refine ⟨m, hm.returns_iff.mpr (returns_of_done hat (Nat.not_lt.mpr hcover)), ?_⟩
  rw [regsLeft_of_done hdone hn hcover, hn, ← hcount]
  exact hat

/-- The loop ends where the reference stops. -/
theorem returns_of_stops (h : t.Stops k) (hcalls : t.CallsAsserted c k) :
    ∃ m, t.Returns c m ∧ t.Leaves (t.sectors k) k (t.regsLeft k) m := by
  have hn : k / sectorWordcount * sectorWordcount ≤ k := Nat.div_mul_le_self _ _
  have hbefore : ∀ i < k / sectorWordcount, (t.call i).Asserted c.space := by
    intro i hi
    have hik : i * sectorWordcount < k := by
      have hlt := Nat.mul_lt_mul_of_pos_right hi (show 0 < sectorWordcount by decide)
      omega
    exact hcalls i hik.le (h.before _ hik).1
  obtain ⟨m, hm, hat⟩ := exists_reaches_at h hn hbefore
  have hle := h.le_words
  by_cases hreached : t.Reached k
  · -- a bus address does not answer
    have hsector := hreached.sector
    have hsectors : t.sectors k = k / sectorWordcount := if_pos hreached
    have harrived := h.arrived hn hsector
    have hlt : k - k / sectorWordcount * sectorWordcount <
        (t.call (k / sectorWordcount)).wordcount := by
      have hk := hreached.1
      have hmod := Nat.mod_lt k (show 0 < 128 by decide)
      show k - k / 128 * 128 < min 128 (t.words - k / 128 * 128)
      omega
    obtain ⟨m', hm', hleaves⟩ :=
      returns_nonexistent hat hsector (hcalls _ hn hsector) (by omega)
    have hwords : k / sectorWordcount * sectorWordcount + t.arrived (k / sectorWordcount) = k := by
      omega
    rw [hwords] at hleaves
    refine ⟨m', hm.returns_iff.mpr hm', ?_⟩
    have hregs : t.regsNonexistent (k / sectorWordcount) = t.regsLeft k := by
      unfold regsNonexistent regsLeft
      rw [hwords, hsectors, if_pos hreached, decide_eq_true hreached.1, decide_eq_true hreached,
        decide_eq_false fun hnot => hnot.2 hreached]
    rw [hsectors, ← hregs]
    exact hleaves
  · have hsectors : t.sectors k = (k + 127) / sectorWordcount := if_neg hreached
    by_cases hleft : k < t.words
    · -- there is no sector
      obtain ⟨hmod, hnot, hbound⟩ := h.notFound hleft hreached
      have hk : k / sectorWordcount * sectorWordcount = k :=
        Nat.div_mul_cancel (Nat.dvd_of_mod_eq_zero hmod)
      obtain ⟨m', hm', hleaves⟩ := returns_notFound hat (by rw [hk]; exact hleft) hbound hnot
      have hsame : t.sectors k = k / sectorWordcount := by
        rw [hsectors]
        change k % 128 = 0 at hmod
        show (k + 127) / 128 = k / 128
        omega
      have hcount : t.count (k / sectorWordcount) = k := by
        unfold count
        rw [hk]
        exact Nat.min_eq_left hle
      refine ⟨m', hm.returns_iff.mpr hm', ?_⟩
      have hregs : t.regsNotFound (k / sectorWordcount) = t.regsLeft k := by
        unfold regsNotFound regsAt regsLeft
        rw [hcount, hsame, if_neg hreached, decide_eq_true hleft, decide_eq_false hreached,
          decide_eq_true ⟨hleft, hreached⟩, Nat.add_zero]
      rw [hcount] at hleaves
      rw [hsame, ← hregs]
      exact hleaves
    · -- all words are moved
      have hdone : k = t.words := by omega
      by_cases hmod : k % sectorWordcount = 0
      · have hk : k / sectorWordcount * sectorWordcount = k :=
          Nat.div_mul_cancel (Nat.dvd_of_mod_eq_zero hmod)
        have hsame : t.sectors k = k / sectorWordcount := by
          rw [hsectors]
          change k % 128 = 0 at hmod
          show (k + 127) / 128 = k / 128
          omega
        exact returns_of_done_at hdone hm hat hsame (by rw [hk]; omega)
      · -- the last sector is a part of one
        have hreached' := (h.before (k / sectorWordcount * sectorWordcount) (by
          have hdiv := Nat.div_add_mod' k sectorWordcount
          omega)).1
        have hall : t.arrived (k / sectorWordcount) =
            (t.call (k / sectorWordcount)).wordcount := by
          have hwordcount : (t.call (k / sectorWordcount)).wordcount ≤
            t.words - k / sectorWordcount * sectorWordcount := Nat.min_le_right _ _
          rw [h.arrived hn hreached']
          omega
        obtain ⟨m', hm', hat'⟩ := exists_reaches_succ hat hreached' (hcalls _ hn hreached') hall
        have hsame : t.sectors k = k / sectorWordcount + 1 := by
          rw [hsectors]
          change ¬k % 128 = 0 at hmod
          show (k + 127) / 128 = k / 128 + 1
          omega
        refine returns_of_done_at hdone (hm.trans hm') hat' hsame ?_
        show t.words ≤ (k / 128 + 1) * 128
        omega

/-- A call that fails an assertion -/
theorem returns_none (h : t.Stops k) (hcalls : ¬t.CallsAsserted c k) :
    Loop.Returns (round c t.answers) t.start none := by
  have hex : ∃ n, n * sectorWordcount ≤ k ∧ t.Reached (n * sectorWordcount) ∧
      ¬(t.call n).Asserted c.space := by
    by_contra hnone
    exact hcalls fun n hn hreached => by_contra fun hcall => hnone ⟨n, hn, hreached, hcall⟩
  -- the first of them
  obtain ⟨hn, hreached, hcall⟩ := Nat.find_spec hex
  have hbefore : ∀ i < Nat.find hex, (t.call i).Asserted c.space := by
    intro i hi
    have hlt : i * sectorWordcount < Nat.find hex * sectorWordcount :=
      Nat.mul_lt_mul_of_pos_right hi (by decide)
    by_contra hnot
    exact Nat.find_min hex hi ⟨by omega, (h.before _ (by omega)).1, hnot⟩
  obtain ⟨m, hm, hat⟩ := exists_reaches_at h hn hbefore
  exact hm.returns_iff.mpr (returns_none_of_call hat hreached hcall)

/-! ## The comparison -/

section Comparison

/-- Whole sectors, or all words -/
theorem Stops.covered (h : t.Stops k) (hwhole : t.Reached k → k % sectorWordcount = 0) :
    k ≤ t.sectors k * sectorWordcount ∧ (t.sectors k - 1) * sectorWordcount ≤ k ∧
      (k < t.sectors k * sectorWordcount → k = t.words) := by
  have hle := h.le_words
  by_cases hreached : t.Reached k
  · have hmod := hwhole hreached
    have hsectors : t.sectors k = k / sectorWordcount := if_pos hreached
    rw [hsectors]
    unfold sectorWordcount at hmod ⊢
    omega
  · have hsectors : t.sectors k = (k + 127) / sectorWordcount := if_neg hreached
    have hmod : k < t.words → k % 128 = 0 := fun hleft => (h.notFound hleft hreached).1
    rw [hsectors]
    unfold sectorWordcount
    omega

/-- The comparison of the last sector, in terms of words -/
theorem checked_iff (h : t.Stops k) (hwhole : t.Reached k → k % sectorWordcount = 0) :
    t.checked (t.sectors k) = true ↔
      t.regs.functionCode = .writeCheck ∧ t.LastDiffers k := by
  obtain ⟨hcover, hfrom, hshort⟩ := h.covered hwhole
  have hle := h.le_words
  unfold checked
  rw [decide_eq_true_eq]
  refine and_congr_right fun _ => ?_
  unfold SectorDiffers LastDiffers
  unfold sectorWordcount at hcover hfrom hshort ⊢
  constructor
  · intro hlast
    obtain ⟨hpos, i, hi, hne⟩ := hlast
    by_cases hk : (t.sectors k - 1) * 128 + i < k
    · rw [if_pos (by omega)] at hne
      exact Or.inl ⟨_, hk, by omega, hne⟩
    · rw [if_neg (by omega)] at hne
      exact Or.inr ⟨_, by omega, by omega, hne.symm⟩
  · intro hlast
    obtain ⟨j, hj, hge, hne⟩ | ⟨j, hj, hge, hne⟩ := hlast
    · have hindex : (t.sectors k - 1) * 128 + (j - (t.sectors k - 1) * 128) = j := by omega
      refine ⟨by omega, j - (t.sectors k - 1) * 128, by omega, ?_⟩
      rw [hindex, if_pos (by omega)]
      exact hne
    · have hindex : (t.sectors k - 1) * 128 + (j - (t.sectors k - 1) * 128) = j := by omega
      refine ⟨by omega, j - (t.sectors k - 1) * 128, by omega, ?_⟩
      rw [hindex, if_neg (by omega)]
      exact hne.symm

/-- The registers are those of the reference. -/
theorem regsLeft_eq (h : t.Stops k) (hwhole : t.Reached k → k % sectorWordcount = 0)
    (hcheck : t.regs.functionCode = .writeCheck →
      ((∃ j < k, t.Differs j) ↔ t.LastDiffers k)) :
    t.regsLeft k = t.regsAfter k := by
  obtain ⟨hcover, -, hshort⟩ := h.covered hwhole
  have hle := h.le_words
  have hMP : t.words - t.sectors k * sectorWordcount = t.words - k := by omega
  have hflag : t.checked (t.sectors k) =
      decide (t.regs.functionCode = .writeCheck ∧ ∃ j < k, t.Differs j) := by
    rw [Bool.eq_iff_iff, checked_iff h hwhole, decide_eq_true_eq]
    exact and_congr_right fun hf => (hcheck hf).symm
  unfold regsLeft regsAfter
  rw [hMP, hflag]

theorem regsLeft_getMPWordcount :
    (t.regsLeft k).getMPWordcount = t.words - t.sectors k * sectorWordcount :=
  getMPWordcount_set (t.regs.updateQunibusAddress (t.busAddress k + if t.Reached k then 2 else 0))
    (Nat.lt_of_le_of_lt (Nat.sub_le _ _) t.words_lt)

theorem regsAfter_getMPWordcount : (t.regsAfter k).getMPWordcount = t.words - k :=
  getMPWordcount_set (t.regs.updateQunibusAddress (t.busAddress k + if t.Reached k then 2 else 0))
    (Nat.lt_of_le_of_lt (Nat.sub_le _ _) t.words_lt)

/-- Where they are, the transfer is regular. -/
theorem regular_of_regsLeft_eq (h : t.Stops k) (heq : t.regsLeft k = t.regsAfter k) :
    (t.Reached k → k % sectorWordcount = 0) ∧
      (t.regs.functionCode = .writeCheck → ((∃ j < k, t.Differs j) ↔ t.LastDiffers k)) := by
  have hwhole : t.Reached k → k % sectorWordcount = 0 := by
    intro hreached
    have hMP := congrArg Registers.getMPWordcount heq
    rw [regsLeft_getMPWordcount, regsAfter_getMPWordcount] at hMP
    have hsectors : t.sectors k = k / sectorWordcount := if_pos hreached
    have hlt := hreached.1
    rw [hsectors] at hMP
    unfold sectorWordcount at hMP ⊢
    omega
  refine ⟨hwhole, fun hf => ?_⟩
  have hflag : t.checked (t.sectors k) =
      decide (t.regs.functionCode = .writeCheck ∧ ∃ j < k, t.Differs j) :=
    congrArg Registers.errorWritecheck heq
  have hiff := checked_iff h hwhole
  rw [hflag, decide_eq_true_eq] at hiff
  exact ⟨fun hd => (hiff.mp ⟨hf, hd⟩).2, fun hd => (hiff.mpr ⟨hf, hd⟩).2⟩

/-- A Read finds the words that a Write has written. -/
theorem readBack (c : Config) (t : Transfer) : t.ReadBack c := by
  intro hwrite hlock m hm u hread hDA hcylinder hhead himage m' hm' k l hk hl w hwk hws hwl
  have hleaves {v : Transfer} {j : ℕ} {x : Machine} (hj : v.Stops j) (hx : v.Returns c x) :
      v.Leaves (v.sectors j) j (v.regsLeft j) x := by
    by_cases hcalls : v.CallsAsserted c j
    · obtain ⟨y, hy, hleaves⟩ := returns_of_stops hj hcalls
      obtain rfl := Option.some.inj (hx.unique hy)
      exact hleaves
    · cases hx.unique (returns_none hj hcalls)
  have hstored := (hleaves hk hm).image
  have hfetched := (hleaves hl hm').memory
  rw [if_pos ⟨hwrite, hlock⟩] at hstored
  rw [if_pos hread] at hfetched
  have hoffset : u.offset = t.offset := by
    unfold offset sector
    rw [hcylinder, hhead, hDA]
  have hplace : u.busAddress w = u.busAddress 0 + 2 * w := by rw [busAddress_add, Nat.zero_add]
  rw [hfetched, hplace, dato_at hwl]
  unfold diskWord
  rw [himage, hstored, hoffset]
  unfold imageAfter
  rw [if_pos ⟨by omega, by omega⟩, if_pos (by omega), Nat.add_sub_cancel_left]

/-- Only a regular transfer does what it should. -/
theorem regular_of_meets (h : t.Meets c) : t.Regular c := by
  obtain ⟨⟨k, m, hk, hm, hresult⟩, -⟩ := h
  by_cases hcalls : t.CallsAsserted c k
  · obtain ⟨m', hm', hleaves⟩ := returns_of_stops hk hcalls
    obtain rfl := Option.some.inj (hm.unique hm')
    obtain ⟨hwhole, hcheck⟩ :=
      regular_of_regsLeft_eq hk (hleaves.regs.symm.trans hresult.regs)
    refine ⟨fun l hl => ?_, fun l hl => ?_, fun hf l hl => ?_⟩ <;> obtain rfl := hk.unique hl
    · exact hcalls
    · exact hwhole
    · exact hcheck hf
  · cases hm.unique (returns_none hk hcalls)

/-- The loop transfers the words that it should and leaves the registers as it should iff the
transfer is regular. -/
theorem meets_reference_iff (c : Config) (t : Transfer) : t.Meets c ↔ t.Regular c := by
  refine ⟨regular_of_meets, fun h => ⟨?_, readBack c t⟩⟩
  obtain ⟨k, hk⟩ := t.exists_stops
  obtain ⟨m, hm, hleaves⟩ := returns_of_stops hk (h.space k hk)
  rw [regsLeft_eq hk (h.whole k hk) fun hf => h.check hf k hk] at hleaves
  exact ⟨k, m, hk, hm, hleaves⟩

/-- Write Check of two sectors: the first differs, and no error is reported. -/
theorem first_sector_not_reported : ¬∀ (c : Config) (t : Transfer), t.Meets c := by
  intro h
  let t : Transfer :=
    { regs := { Registers.initial with
        busregMP := 0xff00, functionCode := .writeCheck, state := .rwInit }
      rwInit := rfl
      checksHeader := rfl
      even := rfl
      drive := ⟨0, by decide, 0, by decide, 0, by decide, false, false, fun _ => 0⟩
      answers := fun a => decide (a < 0o760000)
      memory := fun a => if a = 0 then 1 else 0 }
  have hregular := regular_of_meets (h ⟨2 ^ 18, false⟩ t)
  have hwords : t.words = 256 := rfl
  have htrack : t.OnTrack := by decide
  have hsector : t.sector = 0 := by decide
  have hstops : t.Stops 256 := by
    refine ⟨fun j hj => ⟨⟨by omega, htrack, ?_⟩, ?_⟩, fun hreached => ?_⟩
    · rw [hsector]
      show 0 + j / 128 < 40
      omega
    · show decide (0 * 2 ^ 16 + 0 + 2 * j < 253952) = true
      exact decide_eq_true (by omega)
    · have hlt := hreached.1.1
      omega
  have hreached : ¬t.Reached 256 := fun hreached => by
    have hlt := hreached.1
    omega
  have hsectors : t.sectors 256 = 2 := if_neg hreached
  have hfirst : ∃ j < 256, t.Differs j := ⟨0, by decide, by decide⟩
  -- in the second sector all words are the same
  obtain ⟨j, hj, hfrom, hne⟩ | ⟨j, hj, -, hne⟩ := (hregular.check rfl 256 hstops).mp hfirst
  · rw [hsectors] at hfrom
    have hpos : 0 < j := by
      change (2 - 1) * 128 ≤ j at hfrom
      omega
    have haddress : t.busAddress j ≠ 0 := by
      show 0 * 2 ^ 16 + 0 + 2 * j ≠ 0
      omega
    exact hne (if_neg haddress)
  · exact hne rfl

end Comparison

/-! ## From GO to CRDY -/

section Commands

open Transition

/-- GO for a command that looks for a header -/
theorem go_of_checksHeader {s : State} (h : s.regs.functionCode.checksHeader = true)
    (seeking driveReady : Bool) : s.go seeking driveReady = s.signal := by
  unfold State.go
  cases hf : s.regs.functionCode <;> rw [hf] at h <;> first | rfl | cases h

theorem step_dispatch {s : State} (hworker : s.worker = .dispatching)
    (h : s.regs.functionCode.checksHeader = true) :
    step c s .dispatch =
      some ({ s with worker := .looping }.update (s.regs.changeState .rwInit)) := by
  unfold step
  dsimp only
  rw [if_neg (not_not.mpr hworker)]
  cases hf : s.regs.functionCode <;> rw [hf] at h <;> first | rfl | cases h

/-- GO, up to the loop -/
theorem run_writeCS {s : State} {w : BitVec 16} (seeking driveReady : Bool)
    (hworker : s.worker = .waiting) (hready : s.regs.state = .controllerReady)
    (hinit : s.lineINIT = false) (hgo : w.getLsbD 7 = false)
    (hregs : t.regs = (s.regs.writeCS w).clearErrors.changeState .rwInit) :
    ∃ u, run (step c) s [.writeCS w seeking driveReady, .wake false, .dispatch] = some u ∧
      AtTop u t.start := by
  let v : State := { s with regs := s.regs.writeCS w }
  have hfunction : v.regs.functionCode.checksHeader = true := by
    have h := t.checksHeader
    rwa [hregs] at h
  have hwrite : step c s (.writeCS w seeking driveReady) = some v.start.signal := by
    have hunlocked : s.worker.unlocked ≠ false := by rw [hworker]; decide
    unfold step
    dsimp only
    rw [if_neg (not_not.mpr hready), if_neg hunlocked, if_neg (ne_true_of_eq_false hgo)]
    exact congrArg some (go_of_checksHeader (s := v.start) hfunction seeking driveReady)
  have hwake : step c v.start.signal (.wake false) =
      some { v.start with regs := v.start.regs.clearErrors, worker := .dispatching } := by
    show (if v.lineINIT then _ else _) = _
    exact if_neg (ne_true_of_eq_false hinit)
  have hdispatch : step c { v.start with
      regs := v.start.regs.clearErrors, worker := .dispatching } .dispatch =
        some ({ v.start with worker := .looping }.update t.regs) := by
    rw [hregs]
    exact step_dispatch rfl hfunction
  refine ⟨{ v.start with worker := .looping }.update t.regs, ?_, rfl, rfl, hinit⟩
  simp only [run, hwrite, hwake, hdispatch, Option.bind_some]

/-- From GO to CRDY: the registers of a regular transfer end as they should. -/
theorem run_regsAfter {s : State} {w : BitVec 16} (seeking driveReady : Bool) (hreg : t.Regular c)
    (hworker : s.worker = .waiting) (hready : s.regs.state = .controllerReady)
    (hinit : s.lineINIT = false) (hgo : w.getLsbD 7 = false)
    (hregs : t.regs = (s.regs.writeCS w).clearErrors.changeState .rwInit) : ∃ k, t.Stops k ∧
      ∃ as u, run (step c) s (.writeCS w seeking driveReady :: as) = some u ∧
        u.worker = .waiting ∧ u.regs = t.regsAfter k := by
  obtain ⟨k, hk⟩ := t.exists_stops
  obtain ⟨m, hm, hleaves⟩ := returns_of_stops hk (hreg.space k hk)
  rw [regsLeft_eq hk (hreg.whole k hk) fun hf => hreg.check hf k hk] at hleaves
  obtain ⟨v, hv, htop⟩ := run_writeCS (c := c) seeking driveReady hworker hready hinit hgo hregs
  obtain ⟨as, u, hu, hleft, hwaiting⟩ := run_returns htop hm
  refine ⟨k, hk, [.wake false, .dispatch] ++ as, u, ?_, hwaiting, hleft.trans hleaves.regs⟩
  rw [← List.cons_append, run_append, hv]
  exact hu

/-- Read of one word -/
theorem run_regsAfter_read : ∃ as u, run (step ⟨2 ^ 18, false⟩)
    { State.initial with regs.busregMP := 0xffff } (.writeCS 0xc false true :: as) = some u ∧
      u.worker = .waiting := by
  let s : State := { State.initial with regs.busregMP := 0xffff }
  let t : Transfer :=
    { regs := { s.regs with functionCode := .readData, state := .rwInit }
      rwInit := rfl
      checksHeader := rfl
      even := rfl
      drive := ⟨0, by decide, 0, by decide, 0, by decide, false, false, fun _ => 0⟩
      answers := fun _ => true
      memory := fun _ => 0 }
  have hreg : t.Regular ⟨2 ^ 18, false⟩ := by
    refine ⟨fun k hk n hn hreached => ?_,
      fun k hk hreached => absurd ⟨hreached, rfl⟩ hk.here, fun h => by cases h⟩
    have hlt : n * 128 < 1 := hreached.1
    obtain rfl : n = 0 := by omega
    decide
  obtain ⟨k, -, as, u, hu, hworker, -⟩ :=
    run_regsAfter (s := s) (w := 0xc) false true hreg rfl rfl rfl (by decide) (by decide)
  exact ⟨_, u, hu, hworker⟩

end Commands

end Transfer

end QUniBone.RL11
