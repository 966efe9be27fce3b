import QUniBone.Sharedfs.PartitionBlocks

/-!
# Writes of the guest

`storageimage_shared_c::write()`: the drive writes bytes to the image, and the blocks of the main
partition that it changes are to be marked, so that the synchroniser reads them again.

* `SharedImage`, `SharedImage.write`: the image, and the loop over its sectors.
* `SharedImage.Reachable`: the states of an image that has been opened.
* `Covered`: the write does not end within a sector of another block.
* `write_tracks_iff`: exactly the blocks that are written to get marked.
-/

namespace QUniBone.Sharedfs

/-- The partition that `open()` creates: without an unused first track, and without the track with
the bad sectors. -/
def openMainPartition (g : Geometry) (t : FilesystemType) (d : DriveType) (blockSize : ℕ) :
    Option ImagePartition :=
  let size :=
    if 0 < g.filesystemOffset then g.getRawCapacity - g.filesystemOffset
    else if 0 < g.badSectorFileOffset then g.badSectorFileOffset
    else g.getRawCapacity
  if g.getRawCapacity % 256 ≠ 0 ∨ (0 < g.filesystemOffset ∧ g.badSectorFileOffset ≠ 0) then none
  else (ImagePartition.create g g.filesystemOffset size).bind (·.init (interleaveOf t d) blockSize)

/-- `storageimage_shared_c`, as far as it is written to -/
structure SharedImage where
  isOpen : Bool
  readonly : Bool
  image : Fstream Storage.Byte
  mainPartition : ImagePartition
  decImageChanged : Bool

namespace ImagePartition

/-- `on_image_sector_write()` for some sectors of the image, whose positions are computed as
`unsigned` -/
def markSectors (p : ImagePartition) : List ℕ → Option ImagePartition
  | [] => some p
  | blknr :: blknrs =>
    (p.onImageSectorWrite (blknr * p.sectorSize % 2 ^ 32)).bind fun r => r.2.markSectors blknrs

/-- The sectors that the loop in `write()` goes through: nothing if it does not end, as an
`unsigned` is always below 2^32. -/
def sectorsWritten (p : ImagePartition) (position len : ℕ) : Option (List ℕ) :=
  let first := position / p.sectorSize
  let behind := (position + len) / p.sectorSize
  if behind < 2 ^ 32 then some (List.range' first (behind - first)) else none

end ImagePartition

/-- `write()`, when the loop that fills the file takes at most `fuel` rounds. -/
def SharedImage.write (fuel : ℕ) (s : SharedImage) (data : List Storage.Byte) (position : ℕ) :
    Option SharedImage :=
  if s.isOpen = false then some s
  else if s.readonly = true then some s
  else
    (Storage.Binfile.write fuel s.image (BitVec.ofNat 64 position) data).bind fun image =>
      (s.mainPartition.sectorsWritten position data.length).bind fun blknrs =>
        (s.mainPartition.markSectors blknrs).map fun mainPartition =>
          { s with image := image, mainPartition := mainPartition, decImageChanged := true }

/-- `clear_changed_flags()` -/
def ImagePartition.clearChangedFlags (p : ImagePartition) : ImagePartition :=
  { p with changedBlocks := List.replicate p.changedBlocks.length false }

/-- The states of an image after `open()`: the guest writes, and the synchroniser forgets what has
been changed. -/
inductive SharedImage.Reachable (g : Geometry) (t : FilesystemType) (d : DriveType)
    (blockSize : ℕ) : SharedImage → Prop
  | opened {p : ImagePartition} (image : Fstream Storage.Byte)
      (h : openMainPartition g t d blockSize = some p) : Reachable g t d blockSize
        ⟨true, false, image, p, false⟩
  | written {s u : SharedImage} {fuel position : ℕ} {data : List Storage.Byte}
      (h : Reachable g t d blockSize s) (hw : s.write fuel data position = some u) :
      Reachable g t d blockSize u
  | cleared {s : SharedImage} (h : Reachable g t d blockSize s) : Reachable g t d blockSize
      { s with mainPartition := s.mainPartition.clearChangedFlags }

namespace ImagePartition

variable {p q : ImagePartition}

/-- `changed_blocks[block_nr]` -/
def Marked (p : ImagePartition) (blockNr : ℕ) : Prop := p.changedBlocks[blockNr]? = some true

/-- The blocks are where they were, only the marks differ. -/
structure SameLayout (p q : ImagePartition) : Prop where
  eq : q = { p with changedBlocks := q.changedBlocks }
  length : q.changedBlocks.length = p.changedBlocks.length

theorem SameLayout.refl (p : ImagePartition) : p.SameLayout p := ⟨rfl, rfl⟩

theorem SameLayout.trans {r : ImagePartition} (h : p.SameLayout q) (hr : q.SameLayout r) :
    p.SameLayout r := by
  refine ⟨?_, hr.length.trans h.length⟩
  rw [hr.eq, h.eq]

theorem SameLayout.laid (h : p.SameLayout q) (hp : p.Laid) : q.Laid := by
  have hlength := h.length
  rw [h.eq]
  exact ⟨hp.sectorSize_pos, hp.aligned, hp.perBlock_pos, hp.block_eq, hp.size_eq,
    hp.capacity, hlength.trans hp.changed, hp.phy_length, hp.interleaved⟩

theorem SameLayout.blockHolds_iff (h : p.SameLayout q) (b x : ℕ) :
    q.BlockHolds b x ↔ p.BlockHolds b x := by
  rw [h.eq]
  rfl

/-- One sector: its block is marked, if it is in the partition. -/
theorem Laid.onImageSectorWrite_marks (h : p.Laid) (x : ℕ) :
    ∃ r q, p.onImageSectorWrite x = some (r, q) ∧ p.SameLayout q ∧
      ∀ b < p.blockCount, q.Marked b ↔ p.Marked b ∨ p.BlockHolds b x := by
  by_cases hx : x < p.imagePosition ∨ p.imagePosition + p.size ≤ x
  · refine ⟨false, p, onImageSectorWrite_outside h hx, .refl p, fun b hb => ?_⟩
    constructor
    · exact Or.inl
    · rintro (hmarked | hholds)
      · exact hmarked
      · obtain ⟨j, hj, -, rfl⟩ := (h.blockHolds_iff hb).mp hholds
        have hmem := h.bytePosition_mem hj
        omega
  · obtain ⟨c, hc, hcx, hmark⟩ := h.onImageSectorWrite_inside (x := x) (by omega) (by omega)
    refine ⟨true, _, hmark, ⟨rfl, List.length_set⟩, fun b hb => ?_⟩
    show (p.changedBlocks.set c true)[b]? = some true ↔ _
    by_cases hbc : c = b
    · subst hbc
      rw [List.getElem?_set_self (by rw [h.changed]; exact hc)]
      simp [hcx]
    · rw [List.getElem?_set_ne hbc]
      constructor
      · exact Or.inl
      · rintro (hmarked | hholds)
        · exact hmarked
        · exact absurd (h.blockHolds_unique hc hb hcx hholds) hbc

/-- The loop: by induction on the sectors -/
theorem Laid.markSectors_marks (blknrs : List ℕ) : ∀ {p : ImagePartition}, p.Laid →
    ∃ q, p.markSectors blknrs = some q ∧ p.SameLayout q ∧
      ∀ b < p.blockCount, q.Marked b ↔
        p.Marked b ∨ ∃ n ∈ blknrs, p.BlockHolds b (n * p.sectorSize % 2 ^ 32) := by
  induction blknrs with
  | nil =>
    intro p h
    exact ⟨p, rfl, .refl p, fun b _ => by simp⟩
  | cons n blknrs ih =>
    intro p h
    obtain ⟨r, u, hu, hsame, hmarks⟩ := h.onImageSectorWrite_marks (n * p.sectorSize % 2 ^ 32)
    obtain ⟨q, hq, hsame', hmarks'⟩ := ih (hsame.laid h)
    refine ⟨q, by rw [markSectors, hu]; exact hq, hsame.trans hsame', fun b hb => ?_⟩
    have hcount : u.blockCount = p.blockCount := by rw [hsame.eq]
    have hsector : u.sectorSize = p.sectorSize := by rw [hsame.eq]
    rw [hmarks' b (hcount ▸ hb), hmarks b hb, hsector, or_assoc, List.exists_mem_cons_iff]
    simp only [hsame.blockHolds_iff]

/-- A byte is in the block that the first byte of its sector is in. -/
theorem Laid.blockHolds_sector (h : p.Laid) (b x : ℕ) :
    p.BlockHolds b x ↔ p.BlockHolds b (x / p.sectorSize * p.sectorSize) := by
  have hpos := h.sectorSize_pos
  have hsame : ∀ nr, (p.imagePositionOf nr ≤ x ∧ x < p.imagePositionOf nr + p.sectorSize) ↔
      p.imagePositionOf nr ≤ x / p.sectorSize * p.sectorSize ∧
        x / p.sectorSize * p.sectorSize < p.imagePositionOf nr + p.sectorSize := by
    intro nr
    obtain ⟨k, hk⟩ := Nat.dvd_of_mod_eq_zero h.aligned
    have hstart : p.imagePositionOf nr = (k + nr) * p.sectorSize := by
      rw [imagePositionOf, hk, Nat.add_mul, Nat.mul_comm k]
    rw [hstart, ← Nat.succ_mul, ← Nat.le_div_iff_mul_le hpos, ← Nat.div_lt_iff_lt_mul hpos,
      Nat.mul_le_mul_right_iff hpos, Nat.mul_lt_mul_right hpos]
  simp only [BlockHolds, hsame]

/-- A byte in a block is below 2^32. -/
theorem Laid.blockHolds_lt (h : p.Laid) {b x : ℕ} (hb : b < p.blockCount)
    (hx : p.BlockHolds b x) : x < 2 ^ 32 := by
  obtain ⟨j, hj, -, rfl⟩ := (h.blockHolds_iff hb).mp hx
  have hmem := h.bytePosition_mem hj
  have hcapacity := h.capacity
  omega

/-! ## What a write tracks -/

/-- Some byte of the write is in the block. -/
def Touched (p : ImagePartition) (position len blockNr : ℕ) : Prop :=
  ∃ x, position ≤ x ∧ x < position + len ∧ p.BlockHolds blockNr x

/-- The sectors that the loop in `write()` goes through -/
def Visits (p : ImagePartition) (position len n : ℕ) : Prop :=
  position / p.sectorSize ≤ n ∧ n < (position + len) / p.sectorSize

/-- Where the write ends within a sector, the block of this sector is marked already, or an
earlier sector of the write is in it. And no sector from 2^32 on is taken for one of a block that
is neither marked nor written to. -/
structure Covered (p : ImagePartition) (position len : ℕ) : Prop where
  last : 0 < len → (position + len) % p.sectorSize ≠ 0 → ∀ b < p.blockCount,
    p.BlockHolds b (position + len - 1) →
      p.Marked b ∨ ∃ n, p.Visits position len n ∧ p.BlockHolds b (n * p.sectorSize)
  high : ∀ n, p.Visits position len n → 2 ^ 32 ≤ n * p.sectorSize → ∀ b < p.blockCount,
    p.BlockHolds b (n * p.sectorSize % 2 ^ 32) → p.Marked b ∨ p.Touched position len b

/-- A sector that the loop goes through is written to. -/
theorem Laid.touched_of_visits (h : p.Laid) {position len n b : ℕ}
    (hn : p.Visits position len n) (hb : p.BlockHolds b (n * p.sectorSize)) :
    p.Touched position len b := by
  have hpos := h.sectorSize_pos
  obtain ⟨hfirst, hlast⟩ := hn
  have hend : (n + 1) * p.sectorSize ≤ position + len :=
    (Nat.le_div_iff_mul_le hpos).mp hlast
  rw [Nat.succ_mul] at hend
  by_cases hle : position ≤ n * p.sectorSize
  · exact ⟨n * p.sectorSize, hle, by omega, hb⟩
  · -- the write begins within this sector
    have hn : position / p.sectorSize = n :=
      le_antisymm hfirst ((Nat.le_div_iff_mul_le hpos).mpr (by omega))
    refine ⟨position, le_rfl, ?_, ?_⟩
    · have hmod := Nat.div_add_mod' position p.sectorSize
      have hlt := Nat.mod_lt position hpos
      rw [hn] at hmod
      omega
    · rw [h.blockHolds_sector, hn]
      exact hb

/-- A byte that is written is in a sector that the loop goes through, or in a last one that is not
written to its end. -/
theorem Laid.visits_or_last (h : p.Laid) {position len x : ℕ} (hle : position ≤ x)
    (hlt : x < position + len) :
    p.Visits position len (x / p.sectorSize) ∨
      (position + len) % p.sectorSize ≠ 0 ∧
        (position + len - 1) / p.sectorSize = x / p.sectorSize := by
  have hpos := h.sectorSize_pos
  by_cases hn : x / p.sectorSize < (position + len) / p.sectorSize
  · exact Or.inl ⟨Nat.div_le_div_right hle, hn⟩
  · right
    have hsame : (position + len) / p.sectorSize = x / p.sectorSize :=
      le_antisymm (Nat.le_of_not_lt hn) (Nat.div_le_div_right (by omega))
    have hx := Nat.div_add_mod' x p.sectorSize
    have hend := Nat.div_add_mod' (position + len) p.sectorSize
    rw [hsame] at hend
    refine ⟨by omega, le_antisymm ?_ ?_⟩
    · rw [← hsame]
      exact Nat.div_le_div_right (by omega)
    · exact Nat.div_le_div_right (by omega)

/-- The marks that the loop sets are those of the blocks written to, iff the write is covered. -/
theorem Laid.marks_touched_iff (h : p.Laid) (position len : ℕ) :
    (∀ b < p.blockCount,
      (p.Marked b ∨ ∃ n, p.Visits position len n ∧ p.BlockHolds b (n * p.sectorSize % 2 ^ 32)) ↔
        p.Marked b ∨ p.Touched position len b) ↔ p.Covered position len := by
  constructor
  · intro hall
    constructor
    · intro hlen _ b hb hlast
      have hbound := h.blockHolds_lt hb hlast
      rcases (hall b hb).mpr (Or.inr ⟨_, by omega, by omega, hlast⟩) with hmarked | ⟨n, hn, hbn⟩
      · exact Or.inl hmarked
      · have hend := (Nat.le_div_iff_mul_le h.sectorSize_pos).mp hn.2
        have hpos := h.sectorSize_pos
        rw [Nat.succ_mul] at hend
        rw [Nat.mod_eq_of_lt (by omega)] at hbn
        exact Or.inr ⟨n, hn, hbn⟩
    · intro n hn _ b hb hbn
      exact (hall b hb).mp (Or.inr ⟨n, hn, hbn⟩)
  · intro hcovered b hb
    constructor
    · rintro (hmarked | ⟨n, hn, hbn⟩)
      · exact Or.inl hmarked
      · by_cases hhigh : 2 ^ 32 ≤ n * p.sectorSize
        · exact hcovered.high n hn hhigh b hb hbn
        · rw [Nat.mod_eq_of_lt (by omega)] at hbn
          exact Or.inr (h.touched_of_visits hn hbn)
    · rintro (hmarked | ⟨x, hle, hlt, hbx⟩)
      · exact Or.inl hmarked
      · have hbound := h.blockHolds_lt hb hbx
        have hsector : x / p.sectorSize * p.sectorSize < 2 ^ 32 :=
          lt_of_le_of_lt (Nat.div_mul_le_self _ _) hbound
        rcases h.visits_or_last hle hlt with hn | ⟨hcut, hsame⟩
        · refine Or.inr ⟨_, hn, ?_⟩
          rw [Nat.mod_eq_of_lt hsector, ← h.blockHolds_sector]
          exact hbx
        · have hlast : p.BlockHolds b (position + len - 1) := by
            rw [h.blockHolds_sector, hsame, ← h.blockHolds_sector]
            exact hbx
          rcases hcovered.last (by omega) hcut b hb hlast with hmarked | ⟨n, hn, hbn⟩
          · exact Or.inl hmarked
          · have hmod : n * p.sectorSize % 2 ^ 32 = n * p.sectorSize :=
              Nat.mod_eq_of_lt (h.blockHolds_lt hb hbn)
            exact Or.inr ⟨n, hn, by rwa [hmod]⟩

end ImagePartition

/-! ## Writes to an open image -/

namespace SharedImage

open ImagePartition

variable {s u : SharedImage} {fuel position : ℕ} {data : List Storage.Byte}

/-- What a write that returns does to the partition. -/
theorem mainPartition_of_write (hs : s.mainPartition.Laid) (hopen : s.isOpen = true)
    (hwritable : s.readonly = false) (hw : s.write fuel data position = some u) :
    s.mainPartition.SameLayout u.mainPartition ∧ u.isOpen = true ∧ u.readonly = false ∧
      ∀ b < s.mainPartition.blockCount, u.mainPartition.Marked b ↔ s.mainPartition.Marked b ∨
        ∃ n, s.mainPartition.Visits position data.length n ∧
          s.mainPartition.BlockHolds b (n * s.mainPartition.sectorSize % 2 ^ 32) := by
  rw [write, if_neg (by simp [hopen]), if_neg (by simp [hwritable])] at hw
  obtain ⟨image, -, hw⟩ := Option.bind_eq_some_iff.mp hw
  obtain ⟨blknrs, hblknrs, hw⟩ := Option.bind_eq_some_iff.mp hw
  obtain ⟨q, hq, rfl⟩ := Option.map_eq_some_iff.mp hw
  obtain ⟨q', hq', hsame, hmarks⟩ := hs.markSectors_marks blknrs
  obtain rfl : q' = q := Option.some.inj (hq'.symm.trans hq)
  refine ⟨hsame, hopen, hwritable, fun b hb => ?_⟩
  rw [hmarks b hb]
  have hmem : ∀ n, n ∈ blknrs ↔ s.mainPartition.Visits position data.length n := by
    intro n
    unfold sectorsWritten at hblknrs
    dsimp only at hblknrs
    split at hblknrs
    · cases hblknrs
      rw [List.mem_range'_1, Visits]
      omega
    · cases hblknrs
  simp only [hmem]

/-- An image that has been opened is open, can be written, and has its partition laid out. -/
theorem Reachable.laid {g : Geometry} {t : FilesystemType} {d : DriveType} {blockSize : ℕ}
    (hdvd : g.sectorSizeBytes ∣ blockSize) (h : s.Reachable g t d blockSize) :
    s.mainPartition.Laid ∧ s.isOpen = true ∧ s.readonly = false := by
  induction h with
  | opened image hopen =>
    unfold openMainPartition at hopen
    dsimp only at hopen
    split at hopen
    · cases hopen
    · obtain ⟨q, hcreate, hinit⟩ := Option.bind_eq_some_iff.mp hopen
      exact ⟨q.laid_of_init hdvd hcreate hinit, rfl, rfl⟩
  | written _ hw ih =>
    obtain ⟨hsame, hopen, hwritable, -⟩ := mainPartition_of_write ih.1 ih.2.1 ih.2.2 hw
    exact ⟨hsame.laid ih.1, hopen, hwritable⟩
  | cleared _ ih =>
    have hsame : ∀ p : ImagePartition, p.SameLayout p.clearChangedFlags := fun p =>
      ⟨rfl, List.length_replicate⟩
    exact ⟨(hsame _).laid ih.1, ih.2⟩

/-- A write marks the blocks that it changes, and no others, iff it is covered. -/
theorem write_tracks_iff {g : Geometry} {t : FilesystemType} {d : DriveType} {blockSize : ℕ}
    (hdvd : g.sectorSizeBytes ∣ blockSize) (hs : s.Reachable g t d blockSize)
    (hw : s.write fuel data position = some u) :
    (∀ b < s.mainPartition.blockCount, u.mainPartition.Marked b ↔
      s.mainPartition.Marked b ∨ s.mainPartition.Touched position data.length b) ↔
        s.mainPartition.Covered position data.length := by
  obtain ⟨hlaid, hopen, hwritable⟩ := hs.laid hdvd
  obtain ⟨-, -, -, hmarks⟩ := mainPartition_of_write hlaid hopen hwritable hw
  rw [← hlaid.marks_touched_iff]
  refine forall₂_congr fun b hb => ?_
  rw [hmarks b hb]

/-! ## An RK05 with RT-11 -/

/-- After `open()`, with an empty file -/
def rk05Opened : SharedImage := ⟨true, false, .openAte .empty, rk05Partition, false⟩

theorem rk05Opened_reachable : rk05Opened.Reachable rk05Geometry .rt11 .RK035 512 :=
  .opened _ rfl

/-- The write of a whole block marks it. -/
theorem write_tracks_block : ∃ u, rk05Opened.write 1 (List.replicate 512 1) 0 = some u ∧
    ∀ b < 4872, u.mainPartition.Marked b ↔
      rk05Partition.Marked b ∨ rk05Partition.Touched 0 512 b := by
  obtain ⟨u, hu⟩ : ∃ u, rk05Opened.write 1 (List.replicate 512 1) 0 = some u :=
    Option.isSome_iff_exists.mp (by decide +kernel)
  refine ⟨u, hu, ?_⟩
  have hcovered : rk05Partition.Covered 0 (List.replicate 512 (1 : Storage.Byte)).length := by
    rw [List.length_replicate]
    constructor
    · intro _ hcut
      exact absurd rfl hcut
    · rintro n ⟨-, hn⟩ hhigh
      have hsector : rk05Partition.sectorSize = 512 := rfl
      rw [hsector] at hn hhigh
      omega
  have htracks := (write_tracks_iff ⟨1, rfl⟩ rk05Opened_reachable hu).mpr hcovered
  rwa [List.length_replicate] at htracks

/-- The write of one byte does not mark its block. -/
theorem write_byte_unmarked : ∃ u, rk05Opened.Reachable rk05Geometry .rt11 .RK035 512 ∧
    rk05Opened.write 1 [1] 0 = some u ∧ rk05Partition.Touched 0 1 0 ∧
      ¬u.mainPartition.Marked 0 := by
  refine ⟨_, rk05Opened_reachable, rfl, ?_, ?_⟩
  · refine ⟨0, le_rfl, Nat.one_pos, [0], rfl, 0, by simp, ?_⟩
    decide
  · show ¬(List.replicate 4872 false)[0]? = some true
    rw [List.getElem?_replicate]
    decide

end SharedImage

end QUniBone.Sharedfs
