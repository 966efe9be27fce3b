import QUniBone.Disk.Rl11Reference

/-!
# RL11: sector by sector

At the top of a round that begins a sector the machine is that of the reference after the words of
all sectors so far, whatever sector passes the heads. The rounds before the right sector pass change
nothing but the position of the platter.

* `Transfer.At`: a sector begins. `Transfer.Found`: its header has passed.
* `exists_found`: the search ends.
* `round_found`: the round that finds the sector is its transfer.
-/

namespace QUniBone.RL11

open Disk

namespace Drive

variable {d : Drive}

/-- The sector whose header passes the heads next -/
def passing (d : Drive) : ℕ := d.toHeader.segment / 2

theorem toHeader_segment : d.toHeader.segment = if d.segment % 2 = 1 then (d.segment + 1) % 80
    else d.segment := by
  unfold toHeader
  split <;> rfl

theorem toHeader_even : d.toHeader.segment % 2 = 0 := by
  have hlt := d.segment_lt
  rw [toHeader_segment]
  split <;> omega

theorem passing_lt : d.passing < 40 := by
  have hlt := d.toHeader.segment_lt
  unfold passing
  omega

/-- After a header come the data of its sector. -/
theorem cmdReadNextSectorHeader_segment :
    d.cmdReadNextSectorHeader.2.segment = 2 * d.passing + 1 := by
  have hlt := d.toHeader.segment_lt
  have heven := d.toHeader_even
  show (d.toHeader.segment + 1) % 80 = 2 * (d.toHeader.segment / 2) + 1
  omega

/-- If they are not read, the header of the next sector comes. -/
theorem cmdReadNextSectorHeader_passing :
    d.cmdReadNextSectorHeader.2.passing = (d.passing + 1) % 40 := by
  have hlt := d.passing_lt
  have hsegment := d.cmdReadNextSectorHeader_segment
  show d.cmdReadNextSectorHeader.2.toHeader.segment / 2 = _
  rw [toHeader_segment, hsegment]
  split <;> omega

theorem toHeader_cylinder : d.toHeader.cylinder = d.cylinder := by
  unfold toHeader
  split <;> rfl

theorem toHeader_head : d.toHeader.head = d.head := by
  unfold toHeader
  split <;> rfl

theorem cmdReadNextSectorHeader_fst : d.cmdReadNextSectorHeader.1 = d.header d.passing := by
  unfold cmdReadNextSectorHeader header passing
  dsimp only
  rw [toHeader_cylinder, toHeader_head]

/-- What does not change with the position of the platter -/
theorem cmdReadNextSectorHeader_frame :
    d.cmdReadNextSectorHeader.2.cylinder = d.cylinder ∧
      d.cmdReadNextSectorHeader.2.head = d.head ∧
      d.cmdReadNextSectorHeader.2.image = d.image ∧
      d.cmdReadNextSectorHeader.2.errorWge = d.errorWge ∧
      d.cmdReadNextSectorHeader.2.writeLock = d.writeLock := by
  unfold cmdReadNextSectorHeader toHeader advance
  dsimp only
  split <;> exact ⟨rfl, rfl, rfl, rfl, rfl⟩

theorem cmdWriteNextSectorData_locked (h : d.writeLock = true) (buffer : Buffer) :
    d.cmdWriteNextSectorData buffer = { d with errorWge := true } := if_pos h

/-- After the header of a sector its data are written. -/
theorem cmdWriteNextSectorData_unlocked (h : d.writeLock = false) (hodd : d.segment % 2 = 1)
    (buffer : Buffer) :
    (d.cmdWriteNextSectorData buffer).image = (fun i =>
        if d.offset ≤ i ∧ i < d.offset + sectorWordcount then buffer (i - d.offset)
        else d.image i) ∧
      (d.cmdWriteNextSectorData buffer).errorWge = false ∧
      (d.cmdWriteNextSectorData buffer).cylinder = d.cylinder ∧
      (d.cmdWriteNextSectorData buffer).head = d.head ∧
      (d.cmdWriteNextSectorData buffer).writeLock = d.writeLock := by
  have hdata : ({ d with errorWge := false } : Drive).toData = { d with errorWge := false } :=
    if_neg (by simp [hodd])
  have hlock : ¬d.writeLock = true := by simp [h]
  unfold cmdWriteNextSectorData
  rw [if_neg hlock, hdata]
  exact ⟨rfl, rfl, rfl, rfl, rfl⟩

end Drive

namespace Transfer

variable {c : Config} {t : Transfer} {k n : ℕ} {m : Machine}

/-! ## The disk address -/

theorem sector_eq : t.sector = t.regs.busregDA.toNat % 64 := by
  show (t.regs.busregDA &&& 0x3f).toNat = _
  rw [BitVec.toNat_and]
  exact Nat.and_two_pow_sub_one_eq_mod _ 6

theorem onTrack_iff : t.OnTrack ↔ t.regs.busregDA.toNat / 128 = t.drive.cylinder ∧
    t.regs.busregDA.toNat / 64 % 2 = t.drive.head := by
  unfold OnTrack
  rw [BitVec.toNat_and, BitVec.toNat_ushiftRight, BitVec.toNat_ushiftRight,
    Nat.shiftRight_eq_div_pow, Nat.shiftRight_eq_div_pow]
  show _ ∧ (_ &&& 1) = _ ↔ _
  rw [Nat.and_one_is_mod]

/-- DA of a sector, up to the one behind the last of the track -/
theorem toNat_diskAddress (h : t.sector + n < 64) :
    (t.regs.busregDA + BitVec.ofNat 16 n).toNat = t.regs.busregDA.toNat + n := by
  have hlt := t.regs.busregDA.isLt
  rw [sector_eq] at h
  rw [BitVec.toNat_add, BitVec.toNat_ofNat]
  omega

/-- `header_on_track()` -/
theorem headerOnTrack_iff {d : Drive} (hcylinder : d.cylinder = t.drive.cylinder)
    (hhead : d.head = t.drive.head) (h : t.sector + n < 64) :
    d.headerOnTrack (t.regs.busregDA + BitVec.ofNat 16 n) = true ↔
      t.OnTrack ∧ t.sector + n < 40 := by
  have hDA := toNat_diskAddress h
  have hsector := t.sector_eq
  unfold Drive.headerOnTrack
  rw [decide_eq_true_eq, onTrack_iff, BitVec.toNat_and, BitVec.toNat_and, BitVec.toNat_ushiftRight,
    BitVec.toNat_ushiftRight, Nat.shiftRight_eq_div_pow, Nat.shiftRight_eq_div_pow, hDA, hcylinder,
    hhead]
  show _ ∧ (_ &&& 1) = _ ∧ (_ &&& (2 ^ 6 - 1)) < _ ↔ _
  rw [Nat.and_one_is_mod, Nat.and_two_pow_sub_one_eq_mod]
  omega

/-- The header of the sector is the one that passes. -/
theorem header_eq_iff {d : Drive} (hcylinder : d.cylinder = t.drive.cylinder)
    (hhead : d.head = t.drive.head) (hon : t.OnTrack) (h : t.sector + n < 40) {s : ℕ}
    (hs : s < 40) : d.header s = t.regs.busregDA + BitVec.ofNat 16 n ↔ s = t.sector + n := by
  have hDA := toNat_diskAddress (t := t) (n := n) (by omega)
  have hsector := t.sector_eq
  have htrack := onTrack_iff.mp hon
  have hlt := t.drive.cylinder_lt
  have hheadlt := t.drive.head_lt
  unfold Drive.header
  rw [← BitVec.toNat_inj, BitVec.toNat_ofNat, hDA, hcylinder, hhead]
  omega

/-! ## Registers -/

theorem busAddress_even : t.busAddress k % 2 = 0 := by
  have heven := t.even
  show (t.regs.qunibusAddressMsb * 2 ^ 16 + t.regs.busregBA.toNat + 2 * k) % 2 = 0
  omega

/-- The mask of BA -/
theorem ofNat_and_mask {addr : ℕ} (h : addr % 2 = 0) :
    BitVec.ofNat 16 addr &&& 0xfffe = BitVec.ofNat 16 addr := by
  ext i hi
  rw [BitVec.getElem_and]
  cases i with
  | zero =>
    have hbit : (BitVec.ofNat 16 addr)[0] = false := by
      rw [← BitVec.getLsbD_eq_getElem, BitVec.getLsbD_ofNat, Nat.testBit_zero, h]
      rfl
    rw [hbit, Bool.false_and]
  | succ i =>
    have hbit : (0xfffe : BitVec 16)[i + 1] = true := by
      have hall : ∀ i < 15, (0xfffe : BitVec 16).getLsbD (i + 1) = true := by decide
      exact hall i (by omega)
    rw [hbit, Bool.and_true]

/-- The bus address that was written into the registers -/
theorem getQunibusAddress_update (r : Registers) {addr : ℕ} (h : addr % 2 = 0) :
    (r.updateQunibusAddress addr).getQunibusAddress = addr := by
  show addr / 2 ^ 16 * 2 ^ 16 + (BitVec.ofNat 16 addr &&& 0xfffe).toNat = addr
  rw [ofNat_and_mask h, BitVec.toNat_ofNat]
  omega

/-- The registers already hold the address. -/
theorem update_getQunibusAddress {r : Registers} (h : r.busregBA.toNat % 2 = 0) :
    r.updateQunibusAddress r.getQunibusAddress = r := by
  have hlt := r.busregBA.isLt
  have haddr : r.getQunibusAddress = r.qunibusAddressMsb * 2 ^ 16 + r.busregBA.toNat := rfl
  have hmsb : r.getQunibusAddress / 2 ^ 16 = r.qunibusAddressMsb := by omega
  have hBA : BitVec.ofNat 16 r.getQunibusAddress &&& 0xfffe = r.busregBA := by
    rw [ofNat_and_mask (by omega), ← BitVec.toNat_inj, BitVec.toNat_ofNat]
    omega
  unfold Registers.updateQunibusAddress
  rw [hmsb, hBA]

/-- MP already holds the count. -/
theorem set_getMPWordcount (r : Registers) : r.setMPWordcount r.getMPWordcount = r := by
  have hlt := r.busregMP.isLt
  have hMP : BitVec.ofNat 16 (0x10000 - r.getMPWordcount) = r.busregMP := by
    rw [← BitVec.toNat_inj, BitVec.toNat_ofNat]
    unfold Registers.getMPWordcount
    omega
  unfold Registers.setMPWordcount
  rw [hMP]

theorem getMPWordcount_set (r : Registers) {w : ℕ} (h : w < 2 ^ 16) :
    (r.setMPWordcount w).getMPWordcount = w := by
  show (0x10000 - (BitVec.ofNat 16 (0x10000 - w)).toNat) % 0x10000 = w
  rw [BitVec.toNat_ofNat]
  omega

theorem words_lt : t.words < 2 ^ 16 := Nat.mod_lt _ (by decide)

/-! ## Sector by sector -/

/-- words of the first `n` sectors -/
def count (t : Transfer) (n : ℕ) : ℕ := min (n * sectorWordcount) t.words

/-- Write Check finds a difference in the sector. -/
def SectorDiffers (t : Transfer) (n : ℕ) : Prop :=
  ∃ i < sectorWordcount,
    (if n * sectorWordcount + i < t.words then t.memory (t.busAddress (n * sectorWordcount + i))
      else 0) ≠ t.diskWord (n * sectorWordcount + i)

instance decidableSectorDiffers (t : Transfer) (n : ℕ) : Decidable (t.SectorDiffers n) :=
  inferInstanceAs (Decidable (∃ _, _ < _ ∧ _))

/-- What Write Check has found in the last of `n` sectors -/
def checked (t : Transfer) (n : ℕ) : Bool :=
  decide (t.regs.functionCode = .writeCheck ∧ 0 < n ∧ t.SectorDiffers (n - 1))

/-- The registers after `n` sectors -/
def regsAt (t : Transfer) (n : ℕ) : Registers :=
  { (t.regs.updateQunibusAddress (t.busAddress (t.count n))).setMPWordcount
      (t.words - n * sectorWordcount) with
    busregDA := t.regs.busregDA + BitVec.ofNat 16 n
    state := if n * sectorWordcount < t.words then .rwDisk else .controllerReady
    errorOperationIncomplete := false
    errorDmaTimeout := false
    errorWritecheck := t.checked n
    errorHeaderNotFound := false }

/-- The machine after `n` sectors -/
def At (t : Transfer) (n : ℕ) (m : Machine) : Prop := t.Leaves n (t.count n) (t.regsAt n) m

/-- There is a sector for the next words. -/
def Addressed (t : Transfer) (n : ℕ) : Prop := t.OnTrack ∧ t.sector + n < 40

theorem reached_iff : t.Reached (n * sectorWordcount) ↔
    n * sectorWordcount < t.words ∧ t.Addressed n := by
  unfold Reached Addressed sectorWordcount
  rw [Nat.mul_div_cancel n (by decide)]

/-- The header of the next sector has passed. -/
structure Found (t : Transfer) (n : ℕ) (m : Machine) : Prop where
  here : t.At n m
  segment : m.drive.segment = 2 * (t.sector + n) + 1

theorem regsAt_getMPWordcount : (t.regsAt n).getMPWordcount = t.words - n * sectorWordcount :=
  getMPWordcount_set (t.regs.updateQunibusAddress (t.busAddress (t.count n)))
    (Nat.lt_of_le_of_lt (Nat.sub_le _ _) t.words_lt)

theorem regsAt_getQunibusAddress : (t.regsAt n).getQunibusAddress = t.busAddress (t.count n) :=
  getQunibusAddress_update t.regs busAddress_even

/-- What the controller was told stays. -/
theorem told_update (r : Registers) (addr w : ℕ) (da : BitVec 16) (state : ControllerState)
    (check : Bool) :
    let r' : Registers := { (r.updateQunibusAddress addr).setMPWordcount w with
      busregDA := da
      state := state
      errorOperationIncomplete := false
      errorDmaTimeout := false
      errorWritecheck := check
      errorHeaderNotFound := false }
    r'.functionCode = r.functionCode ∧ r'.selectedDriveUnitno = r.selectedDriveUnitno := ⟨rfl, rfl⟩

theorem regsAt_functionCode : (t.regsAt n).functionCode = t.regs.functionCode := by
  unfold regsAt
  exact (told_update t.regs _ _ _ _ _).1

theorem regsAt_selectedDriveUnitno :
    (t.regsAt n).selectedDriveUnitno = t.regs.selectedDriveUnitno := by
  unfold regsAt
  exact (told_update t.regs _ _ _ _ _).2

theorem regsAt_busregDA : (t.regsAt n).busregDA = t.regs.busregDA + BitVec.ofNat 16 n := rfl

theorem regsAt_state : (t.regsAt n).state =
    if n * sectorWordcount < t.words then .rwDisk else .controllerReady := rfl

/-! ## The search -/

section Search

/-- A header passes. -/
theorem Leaves.passed {regs : Registers} (h : t.Leaves n k regs m) :
    t.Leaves n k regs { m with drive := m.drive.cmdReadNextSectorHeader.2 } := by
  obtain ⟨hcylinder, hhead, himage, hwge, hlock⟩ := m.drive.cmdReadNextSectorHeader_frame
  exact {
    regs := h.regs
    memory := h.memory
    image := himage.trans h.image
    errorWge := hwge.trans h.errorWge
    cylinder := hcylinder.trans h.cylinder
    head := hhead.trans h.head
    writeLock := hlock.trans h.writeLock }

/-- The functions of a transfer -/
theorem function_cases (t : Transfer) : t.regs.functionCode = .readData ∨
    t.regs.functionCode = .writeData ∨ t.regs.functionCode = .writeCheck := by
  have h := t.checksHeader
  cases hfunction : t.regs.functionCode <;> simp [hfunction, Function.checksHeader] at h ⊢

theorem isTransfer (t : Transfer) : t.regs.functionCode.isTransfer = true := by
  obtain h | h | h := t.function_cases <;> rw [h] <;> rfl

theorem round_rwDisk (h : t.At n m) (hleft : n * sectorWordcount < t.words) :
    round c t.answers m = m.rwDisk c t.answers := by
  have hstate : m.regs.state = .rwDisk := by
    rw [h.regs, regsAt_state, if_pos hleft]
  have htransfer : m.regs.functionCode.isTransfer = true := by
    rw [h.regs, regsAt_functionCode, t.isTransfer]
  unfold round
  rw [hstate]
  exact if_pos htransfer

/-- A round with a sector on the track -/
theorem round_addressed (h : t.At n m) (hleft : n * sectorWordcount < t.words)
    (haddressed : t.Addressed n) :
    round c t.answers m =
      if m.drive.passing = t.sector + n then
        { m with drive := m.drive.cmdReadNextSectorHeader.2 }.transfer c t.answers
          (m.drive.header m.drive.passing)
      else .inr { m with drive := m.drive.cmdReadNextSectorHeader.2 } := by
  obtain ⟨hon, hlt⟩ := haddressed
  have hcount : ¬m.regs.getMPWordcount = 0 := by
    rw [h.regs, regsAt_getMPWordcount]
    omega
  have hheader : ¬m.regs.functionCode = .readDataWithoutHeaderCheck := by
    rw [h.regs, regsAt_functionCode]
    obtain hf | hf | hf := t.function_cases <;> rw [hf] <;> decide
  have hDA : m.regs.busregDA = t.regs.busregDA + BitVec.ofNat 16 n := by
    rw [h.regs, regsAt_busregDA]
  have htrack : m.drive.headerOnTrack m.regs.busregDA = true := by
    rw [hDA]
    exact (headerOnTrack_iff h.cylinder h.head (by omega)).mpr ⟨hon, hlt⟩
  have hfound := header_eq_iff h.cylinder h.head hon hlt m.drive.passing_lt
  rw [round_rwDisk h hleft]
  unfold Machine.rwDisk
  rw [if_neg hcount, if_neg hheader, if_pos htrack]
  dsimp only
  rw [m.drive.cmdReadNextSectorHeader_fst, hDA]
  exact if_congr hfound rfl rfl

/-- The right sector comes under the heads. -/
theorem exists_found (h : t.At n m) (hleft : n * sectorWordcount < t.words)
    (haddressed : t.Addressed n) :
    ∃ m', Loop.Reaches (round c t.answers) m m' ∧ t.At n m' ∧
      m'.drive.passing = t.sector + n := by
  -- by induction on the sectors that pass before it
  generalize hdistance : (t.sector + n + 40 - m.drive.passing) % 40 = distance
  have hlt := haddressed.2
  induction distance generalizing m with
  | zero =>
    have hpassing := m.drive.passing_lt
    exact ⟨m, .refl, h, by omega⟩
  | succ distance ih =>
    have hpassing := m.drive.passing_lt
    have hmiss : ¬m.drive.passing = t.sector + n := by omega
    have hround := round_addressed (c := c) h hleft haddressed
    rw [if_neg hmiss] at hround
    have hnext := m.drive.cmdReadNextSectorHeader_passing
    obtain ⟨m', hreaches, hat, hhit⟩ := ih h.passed (by
      show (t.sector + n + 40 - m.drive.cmdReadNextSectorHeader.2.passing) % 40 = distance
      omega)
    exact ⟨m', .head hround hreaches, hat, hhit⟩

/-- The round that finds it -/
theorem round_found (h : t.At n m) (hleft : n * sectorWordcount < t.words)
    (haddressed : t.Addressed n) (hhit : m.drive.passing = t.sector + n) :
    ∃ m' header, t.Found n m' ∧ round c t.answers m = m'.transfer c t.answers header := by
  have hround := round_addressed (c := c) h hleft haddressed
  rw [if_pos hhit] at hround
  refine ⟨_, _, ⟨h.passed, ?_⟩, hround⟩
  rw [← hhit]
  exact m.drive.cmdReadNextSectorHeader_segment

end Search

/-! ## The transfer of a sector -/

section Sector

/-- How many words of the sector have bus addresses that answer, up to the first that does not -/
def arrived (t : Transfer) (n : ℕ) : ℕ :=
  answered t.answers (t.call n).address (t.call n).wordcount

theorem arrived_le : t.arrived n ≤ (t.call n).wordcount := answered_le _ _

theorem count_of_lt (h : n * sectorWordcount < t.words) : t.count n = n * sectorWordcount :=
  Nat.min_eq_left h.le

theorem count_succ (h : n * sectorWordcount < t.words) :
    t.count (n + 1) = n * sectorWordcount + (t.call n).wordcount := by
  show min ((n + 1) * 128) t.words = n * 128 + min 128 (t.words - n * 128)
  change n * 128 < t.words at h
  omega

theorem busAddress_add (k i : ℕ) : t.busAddress k + 2 * i = t.busAddress (k + i) := by
  unfold busAddress
  omega

theorem Found.piece (h : t.Found n m) (hleft : n * sectorWordcount < t.words)
    (header : BitVec 16) : m.piece header =
      ⟨t.regs.selectedDriveUnitno, t.busAddress (n * sectorWordcount),
        t.words - n * sectorWordcount, t.regs.busregDA + BitVec.ofNat 16 n, header, none, none⟩ := by
  unfold Machine.piece
  rw [h.here.regs, regsAt_getMPWordcount, regsAt_getQunibusAddress, regsAt_busregDA,
    regsAt_selectedDriveUnitno, count_of_lt hleft]

theorem Found.functionCode (h : t.Found n m) : m.regs.functionCode = t.regs.functionCode := by
  rw [h.here.regs, regsAt_functionCode]

/-- The arguments of `DMA()` -/
theorem Found.dmaCall (h : t.Found n m) (hleft : n * sectorWordcount < t.words)
    (header : BitVec 16) : dmaCall m.regs.functionCode (m.piece header) = some (t.call n) := by
  have hcount : (if t.words - n * sectorWordcount > sectorWordcount then sectorWordcount
      else t.words - n * sectorWordcount) = min sectorWordcount (t.words - n * sectorWordcount) := by
    split <;> omega
  rw [h.functionCode, h.piece hleft]
  unfold call RL11.dmaCall Piece.dmaWordcount
  dsimp only
  rw [hcount]
  obtain hf | hf | hf := t.function_cases <;> rw [hf] <;> rfl

theorem Found.transfer (h : t.Found n m) (hleft : n * sectorWordcount < t.words)
    (header : BitVec 16) : m.transfer c t.answers header =
      if (t.call n).Asserted c.space then .inr (m.transferred t.answers (m.piece header) (t.call n))
      else .inl none := by
  unfold Machine.transfer
  dsimp only
  rw [h.dmaCall hleft]

/-- The sector under the heads -/
theorem Found.offset (h : t.Found n m) :
    m.drive.offset = t.offset + n * sectorWordcount := by
  have hsector : m.drive.segment / 2 = t.sector + n := by
    rw [h.segment]
    omega
  unfold Drive.offset Transfer.offset
  rw [hsector, h.here.cylinder, h.here.head]
  unfold sectorWordcount
  omega

theorem Found.silo (h : t.Found n m) (hwrite : t.regs.functionCode ≠ .writeData) :
    m.silo = (fun i => t.diskWord (n * sectorWordcount + i), m.drive.advance) := by
  have hdata : m.drive.toData = m.drive := by
    have hodd : ¬m.drive.segment % 2 = 0 := by
      rw [h.segment]
      omega
    exact if_neg hodd
  have himage : m.drive.image = t.drive.image :=
    h.here.image.trans (if_neg fun hboth => hwrite hboth.1)
  unfold Machine.silo
  rw [h.functionCode, if_neg hwrite]
  unfold Drive.cmdReadNextSectorData diskWord
  dsimp only
  rw [hdata, himage, h.offset]
  simp only [Nat.add_assoc]

/-- Memory after the DMA -/
theorem Found.memory (h : t.Found n m) (hleft : n * sectorWordcount < t.words) (a : ℕ) :
    (if (t.call n).cycle = .dato then dato m.memory (t.call n).address m.silo.1 a else m.memory) =
      if t.regs.functionCode = .readData then
        dato t.memory (t.busAddress 0) t.diskWord (n * sectorWordcount + a)
      else t.memory := by
  have hcycle : (t.call n).cycle = if t.regs.functionCode = .readData then .dato else .dati := rfl
  rw [hcycle, h.here.memory, count_of_lt hleft]
  by_cases hread : t.regs.functionCode = .readData
  · have hsilo := h.silo (by rw [hread]; decide)
    have haddress : (t.call n).address = t.busAddress 0 + 2 * (n * sectorWordcount) := by
      rw [busAddress_add, Nat.zero_add]
      rfl
    rw [if_pos hread, if_pos hread, if_pos hread, if_pos rfl, hsilo, haddress]
    exact dato_add _ _
  · rw [if_neg hread, if_neg hread, if_neg hread, if_neg (by decide)]

/-- What the DMA brings for Write and Write Check -/
theorem filled_eq (memory : ℕ → BusWord) {i : ℕ} (hi : i < sectorWordcount) :
    dati memory (t.call n).address (fun _ => 0) (t.call n).wordcount i =
      if n * sectorWordcount + i < t.words then memory (t.busAddress (n * sectorWordcount + i))
      else 0 := by
  have hcount : i < (t.call n).wordcount ↔ n * sectorWordcount + i < t.words := by
    show i < min 128 (t.words - n * 128) ↔ n * 128 + i < t.words
    change i < 128 at hi
    omega
  show (if i < (t.call n).wordcount then memory (t.busAddress _ + 2 * i) else 0) = _
  rw [busAddress_add]
  exact if_congr hcount rfl rfl

/-- The comparison of the whole sector -/
theorem Found.differs (h : t.Found n m) (hcheck : t.regs.functionCode = .writeCheck) :
    ((List.range sectorWordcount).any fun i => m.silo.1 i !=
      dati m.memory (t.call n).address (fun _ => 0) (t.call n).wordcount i) =
        decide (t.SectorDiffers n) := by
  have hmemory : m.memory = t.memory := by
    rw [h.here.memory, if_neg (by rw [hcheck]; decide)]
  rw [Bool.eq_iff_iff, List.any_eq_true, decide_eq_true_eq, h.silo (by rw [hcheck]; decide),
    hmemory]
  refine exists_congr fun i => and_congr_left' List.mem_range |>.trans ?_
  refine and_congr_right fun hi => ?_
  rw [filled_eq t.memory hi, bne_iff_ne]
  exact ne_comm

/-- The image after the words of another sector -/
theorem imageAfter_succ (hleft : n * sectorWordcount < t.words) (i : ℕ) :
    t.imageAfter (n + 1) (t.count (n + 1)) i =
      if t.offset + n * sectorWordcount ≤ i ∧
          i < t.offset + n * sectorWordcount + sectorWordcount then
        if n * sectorWordcount + (i - (t.offset + n * sectorWordcount)) < t.words then
          t.memory (t.busAddress (n * sectorWordcount + (i - (t.offset + n * sectorWordcount))))
        else 0
      else t.imageAfter n (t.count n) i := by
  unfold imageAfter
  have hcount : t.count n = n * 128 := count_of_lt hleft
  have hnext : t.count (n + 1) = min ((n + 1) * 128) t.words := rfl
  rw [hcount, hnext]
  unfold sectorWordcount at hleft ⊢
  by_cases hin : t.offset + n * 128 ≤ i ∧ i < t.offset + n * 128 + 128
  · have hall : t.offset ≤ i ∧ i < t.offset + (n + 1) * 128 := by omega
    have hindex : n * 128 + (i - (t.offset + n * 128)) = i - t.offset := by omega
    rw [if_pos hin, if_pos hall, hindex]
    exact if_congr (by omega) rfl rfl
  · rw [if_neg hin]
    by_cases hbefore : t.offset ≤ i ∧ i < t.offset + n * 128
    · have hall : t.offset ≤ i ∧ i < t.offset + (n + 1) * 128 := by omega
      rw [if_pos hbefore, if_pos hall]
      exact if_congr (by omega) rfl rfl
    · have hnone : ¬(t.offset ≤ i ∧ i < t.offset + (n + 1) * 128) := by omega
      rw [if_neg hbefore, if_neg hnone]

/-- `cmd_write_next_sector_data()` of what the DMA has brought -/
theorem Found.written (h : t.Found n m) (hleft : n * sectorWordcount < t.words)
    (hwrite : t.regs.functionCode = .writeData) {d : Drive}
    (hd : d = m.drive.cmdWriteNextSectorData
      (dati t.memory (t.call n).address (fun _ => 0) (t.call n).wordcount)) :
    d.image = (if t.drive.writeLock = false then t.imageAfter (n + 1) (t.count (n + 1))
        else t.drive.image) ∧
      d.errorWge = t.drive.writeLock ∧ d.cylinder = t.drive.cylinder ∧
        d.head = t.drive.head ∧ d.writeLock = t.drive.writeLock := by
  have hlock := h.here.writeLock
  have himage := h.here.image
  rw [hd]
  cases hlocked : t.drive.writeLock with
  | true =>
    rw [hlocked] at himage hlock
    rw [Drive.cmdWriteNextSectorData_locked hlock]
    exact ⟨himage.trans (if_neg (by simp)), rfl, h.here.cylinder, h.here.head, hlock⟩
  | false =>
    rw [hlocked] at himage hlock
    have hodd : m.drive.segment % 2 = 1 := by
      rw [h.segment]
      omega
    obtain ⟨hwritten, hwge, hcylinder, hhead, hsame⟩ :=
      Drive.cmdWriteNextSectorData_unlocked hlock hodd
        (dati t.memory (t.call n).address (fun _ => 0) (t.call n).wordcount)
    refine ⟨?_, hwge, hcylinder.trans h.here.cylinder, hhead.trans h.here.head,
      hsame.trans hlock⟩
    rw [hwritten, if_pos rfl, h.offset, himage, if_pos ⟨hwrite, rfl⟩]
    funext i
    rw [imageAfter_succ hleft]
    split
    case isTrue hin => exact filled_eq t.memory (by omega)
    case isFalse => rfl

/-- `m.transferred`, when all bus addresses answer -/
theorem transferred_complete {p : Piece} (hall : t.arrived n = (t.call n).wordcount) :
    m.transferred t.answers p (t.call n) =
      ({
        regs := { m.regs.updateQunibusAddress ((t.call n).endAddress (t.call n).wordcount + 2) with
          errorDmaTimeout := false }
        memory := if (t.call n).cycle = .dato then
          dato m.memory (t.call n).address m.silo.1 (t.call n).wordcount else m.memory
        drive := m.silo.2 } : Machine).stored p m.silo.1
          (dati m.memory (t.call n).address (fun _ => 0) (t.call n).wordcount) := by
  unfold arrived at hall
  unfold Machine.transferred DmaRequest.completed
  dsimp only
  rw [hall, decide_eq_true rfl, if_pos rfl]
  rfl

/-- `m.transferred`, when one does not -/
theorem transferred_nonexistent {p : Piece} (hnot : t.arrived n ≠ (t.call n).wordcount) :
    m.transferred t.answers p (t.call n) =
      ({
        regs := { m.regs.updateQunibusAddress ((t.call n).endAddress (t.arrived n) + 2) with
          errorDmaTimeout := true }
        memory := if (t.call n).cycle = .dato then
          dato m.memory (t.call n).address m.silo.1 (t.arrived n) else m.memory
        drive := m.silo.2 } : Machine).operationIncomplete := by
  unfold arrived at hnot ⊢
  unfold Machine.transferred DmaRequest.completed
  dsimp only
  rw [decide_eq_false hnot, if_neg Bool.false_ne_true]
  rfl

theorem call_wordcount_pos (hleft : n * sectorWordcount < t.words) :
    0 < (t.call n).wordcount := by
  show 0 < min 128 (t.words - n * 128)
  change n * 128 < t.words at hleft
  omega

/-- Behind the last word of the sector -/
theorem endAddress_complete (hleft : n * sectorWordcount < t.words) :
    (t.call n).endAddress (t.call n).wordcount + 2 = t.busAddress (t.count (n + 1)) := by
  have hpos := call_wordcount_pos hleft
  unfold DmaCall.endAddress
  rw [if_pos rfl, count_succ hleft, ← busAddress_add]
  show t.busAddress (n * sectorWordcount) + 2 * ((t.call n).wordcount - 1) + 2 = _
  omega

theorem endAddress_nonexistent (hnot : t.arrived n ≠ (t.call n).wordcount) :
    (t.call n).endAddress (t.arrived n) = t.busAddress (n * sectorWordcount + t.arrived n) := by
  unfold DmaCall.endAddress
  rw [if_neg hnot, ← busAddress_add]
  rfl

/-- `Piece.nextRegisters` on registers of this form -/
theorem nextRegisters_update (r : Registers) (addr addr' w : ℕ) (da : BitVec 16)
    (state state' : ControllerState) (check differs : Bool) (p : Piece) :
    (p.nextRegisters { Registers.updateQunibusAddress
        { (r.updateQunibusAddress addr).setMPWordcount w with
          busregDA := da
          state := state
          errorOperationIncomplete := false
          errorDmaTimeout := false
          errorWritecheck := check
          errorHeaderNotFound := false } addr' with
        errorDmaTimeout := false } differs).changeState state' =
      { (r.updateQunibusAddress addr').setMPWordcount p.remaining with
        busregDA := p.diskAddress + 1
        state := state'
        errorOperationIncomplete := false
        errorDmaTimeout := false
        errorWritecheck := if r.functionCode = .writeCheck then differs else check
        errorHeaderNotFound := false } := rfl

/-- The registers after another sector -/
theorem regsAt_succ {header : BitVec 16} {differs : Bool}
    (hdiffers : t.regs.functionCode = .writeCheck → differs = decide (t.SectorDiffers n))
    {p : Piece} (hp : p = ⟨t.regs.selectedDriveUnitno, t.busAddress (n * sectorWordcount),
      t.words - n * sectorWordcount, t.regs.busregDA + BitVec.ofNat 16 n, header, none, none⟩) :
    (p.nextRegisters { (t.regsAt n).updateQunibusAddress (t.busAddress (t.count (n + 1))) with
        errorDmaTimeout := false } differs).changeState
      (if p.remaining = 0 then .controllerReady else .rwDisk) = t.regsAt (n + 1) := by
  have hremaining : p.remaining = t.words - (n + 1) * sectorWordcount := by
    rw [hp]
    unfold Piece.remaining sectorWordcount
    dsimp only
    split <;> omega
  have hDA : p.diskAddress + 1 = t.regs.busregDA + BitVec.ofNat 16 (n + 1) := by
    rw [hp, BitVec.ofNat_add, ← BitVec.add_assoc]
    rfl
  have hstate : (if p.remaining = 0 then ControllerState.controllerReady else .rwDisk) =
      if (n + 1) * sectorWordcount < t.words then .rwDisk else .controllerReady := by
    rw [hremaining]
    split <;> split <;> first | rfl | omega
  have hcheck : (if t.regs.functionCode = .writeCheck then differs else t.checked n) =
      t.checked (n + 1) := by
    unfold checked
    by_cases hf : t.regs.functionCode = .writeCheck
    · rw [if_pos hf, hdiffers hf]
      simp [hf]
    · simp [hf]
  unfold regsAt
  rw [nextRegisters_update, hstate, hremaining, hDA, hcheck]

/-- Before the DMA of Write the drive has done nothing. -/
theorem Found.silo_write (h : t.Found n m) (hwrite : t.regs.functionCode = .writeData) :
    m.silo = (fun _ => 0, m.drive) := by
  unfold Machine.silo
  rw [h.functionCode, if_pos hwrite]

/-- Words of a sector that is not written are not on the disk. -/
theorem imageAfter_nonexistent (a : ℕ) :
    t.imageAfter n (n * sectorWordcount + a) = t.imageAfter n (n * sectorWordcount) := by
  funext i
  unfold imageAfter
  split
  case isTrue hin => rw [if_pos (by omega), if_pos (by omega)]
  case isFalse => rfl

/-- What a read of the sector leaves of the drive -/
theorem Found.silo_frame (h : t.Found n m) (hwrite : t.regs.functionCode ≠ .writeData) :
    m.silo.2.image = t.drive.image ∧ m.silo.2.errorWge = t.drive.errorWge ∧
      m.silo.2.cylinder = t.drive.cylinder ∧ m.silo.2.head = t.drive.head ∧
      m.silo.2.writeLock = t.drive.writeLock := by
  rw [h.silo hwrite]
  exact ⟨h.here.image.trans (if_neg fun hboth => hwrite hboth.1),
    h.here.errorWge.trans (if_neg fun hboth => hwrite hboth.1), h.here.cylinder, h.here.head,
    h.here.writeLock⟩

/-- What follows the DMA, in one piece -/
theorem stored_eq (m : Machine) (p : Piece) (silo filled : Buffer) :
    m.stored p silo filled =
      { regs := (p.nextRegisters m.regs
          ((List.range sectorWordcount).any fun i => silo i != filled i)).changeState
            (if p.remaining = 0 then .controllerReady else .rwDisk)
        memory := m.memory
        drive :=
          if m.regs.functionCode = .writeData then m.drive.cmdWriteNextSectorData filled
          else m.drive } := by
  unfold Machine.stored
  dsimp only
  split <;> rfl

/-- A sector is done. -/
theorem Found.complete (h : t.Found n m) (hleft : n * sectorWordcount < t.words)
    (hall : t.arrived n = (t.call n).wordcount) (header : BitVec 16) :
    t.At (n + 1) (m.transferred t.answers (m.piece header) (t.call n)) := by
  have hmemory := h.memory hleft (t.call n).wordcount
  rw [← count_succ hleft] at hmemory
  have hregs := regsAt_succ (t := t) (n := n) h.differs (h.piece hleft header)
  have hfunction (addr : ℕ) :
      ({ m.regs.updateQunibusAddress addr with errorDmaTimeout := false } :
        Registers).functionCode = t.regs.functionCode := h.functionCode
  have hmachine : m.transferred t.answers (m.piece header) (t.call n) =
      { regs := t.regsAt (n + 1)
        memory := if (t.call n).cycle = .dato then
          dato m.memory (t.call n).address m.silo.1 (t.call n).wordcount else m.memory
        drive := if t.regs.functionCode = .writeData then
          m.silo.2.cmdWriteNextSectorData
            (dati m.memory (t.call n).address (fun _ => 0) (t.call n).wordcount)
          else m.silo.2 } := by
    rw [transferred_complete hall, stored_eq, endAddress_complete hleft, Machine.mk.injEq]
    refine ⟨?_, rfl, ?_⟩
    · rw [← hregs, ← h.here.regs]
    · exact if_congr (by rw [← hfunction]) rfl rfl
  rw [hmachine]
  by_cases hwrite : t.regs.functionCode = .writeData
  · have hsame : m.memory = t.memory := by
      rw [h.here.memory, if_neg (by rw [hwrite]; decide)]
    obtain ⟨himage, hwge, hcylinder, hhead, hlock⟩ := h.written hleft hwrite rfl
    rw [if_pos hwrite, h.silo_write hwrite, hsame]
    rw [h.silo_write hwrite, hsame] at hmemory
    refine ⟨rfl, hmemory, himage.trans ?_, hwge.trans ?_, hcylinder, hhead, hlock⟩
    · exact if_congr (by simp [hwrite]) rfl rfl
    · exact (if_pos ⟨hwrite, Nat.succ_pos n⟩).symm
  · obtain ⟨himage, hwge, hcylinder, hhead, hlock⟩ := h.silo_frame hwrite
    rw [if_neg hwrite]
    refine ⟨rfl, hmemory, himage.trans ?_, hwge.trans ?_, hcylinder, hhead, hlock⟩
    · exact (if_neg fun hboth => hwrite hboth.1).symm
    · exact (if_neg fun hboth => hwrite hboth.1).symm

/-- The registers when a bus address did not answer: DA and MP are those of the sector. -/
def regsNonexistent (t : Transfer) (n : ℕ) : Registers :=
  { (t.regs.updateQunibusAddress
      (t.busAddress (n * sectorWordcount + t.arrived n) + 2)).setMPWordcount
        (t.words - n * sectorWordcount) with
    busregDA := t.regs.busregDA + BitVec.ofNat 16 n
    state := .controllerReady
    errorOperationIncomplete := true
    errorDmaTimeout := true
    errorWritecheck := t.checked n
    errorHeaderNotFound := false }

theorem nonexistent_update (r : Registers) (addr addr' w : ℕ) (da : BitVec 16)
    (state : ControllerState) (check : Bool) :
    ({ ({ Registers.updateQunibusAddress
      { (r.updateQunibusAddress addr).setMPWordcount w with
        busregDA := da
        state := state
        errorOperationIncomplete := false
        errorDmaTimeout := false
        errorWritecheck := check
        errorHeaderNotFound := false } addr' with errorDmaTimeout := true } : Registers) with
      errorOperationIncomplete := true } : Registers).changeState .controllerReady =
    { (r.updateQunibusAddress addr').setMPWordcount w with
      busregDA := da
      state := .controllerReady
      errorOperationIncomplete := true
      errorDmaTimeout := true
      errorWritecheck := check
      errorHeaderNotFound := false } := rfl

theorem Found.nonexistent (h : t.Found n m) (hleft : n * sectorWordcount < t.words)
    (hnot : t.arrived n ≠ (t.call n).wordcount) (header : BitVec 16) :
    t.Leaves n (n * sectorWordcount + t.arrived n) (t.regsNonexistent n)
      (m.transferred t.answers (m.piece header) (t.call n)) := by
  have hmemory := h.memory hleft (t.arrived n)
  rw [transferred_nonexistent hnot, endAddress_nonexistent hnot]
  unfold Machine.operationIncomplete Machine.commandDone
  dsimp only
  have hregs : ({ ({ m.regs.updateQunibusAddress
      (t.busAddress (n * sectorWordcount + t.arrived n) + 2) with errorDmaTimeout := true } :
        Registers) with errorOperationIncomplete := true } : Registers).changeState
          .controllerReady = t.regsNonexistent n := by
    rw [h.here.regs]
    unfold regsAt regsNonexistent
    exact nonexistent_update t.regs _ _ _ _ _ _
  by_cases hwrite : t.regs.functionCode = .writeData
  · have hle : n * sectorWordcount + t.arrived n ≤ t.words := by
      have harrived := arrived_le (t := t) (n := n)
      have hcount := count_succ hleft
      have hmin : t.count (n + 1) ≤ t.words := Nat.min_le_right _ _
      omega
    rw [h.silo_write hwrite] at hmemory ⊢
    refine ⟨hregs, hmemory, h.here.image.trans ?_, h.here.errorWge, h.here.cylinder,
      h.here.head, h.here.writeLock⟩
    rw [count_of_lt hleft, imageAfter_nonexistent]
  · obtain ⟨himage, hwge, hcylinder, hhead, hlock⟩ := h.silo_frame hwrite
    refine ⟨hregs, hmemory, himage.trans ?_, hwge.trans ?_, hcylinder, hhead, hlock⟩
    · exact (if_neg fun hboth => hwrite hboth.1).symm
    · exact (if_neg fun hboth => hwrite hboth.1).symm

end Sector

end Transfer

end QUniBone.RL11
