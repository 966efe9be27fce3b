import QUniBone.Sharedfs.Interleave
import QUniBone.Sharedfs.Partition
import QUniBone.Storage.ImageRuns

/-!
# Partition of an image file

`storageimage_partition_c` over the file that holds the image: blocks of a file system, each of
some sectors, which lie where the interleave tables put them.

* `ImagePartition`, `create`, `init`: the partition and its tables.
* `ImagePartition.getBlocks`, `setBlocks`: reading and writing blocks.
* `ImagePartition.onImageSectorWrite`: the block that a byte of the image belongs to is marked.
* `ImagePartition.Laid`: what the constructor and `init()` establish.
* `ImagePartition.bytePosition`: where the bytes of the blocks are in the image.
-/

namespace QUniBone.Sharedfs

/-- `filesystem_type_e` -/
inductive FilesystemType
  | xxdp | rt11
  deriving DecidableEq

/-- `is_RX()` -/
def DriveType.isRX (d : DriveType) : Bool := d = .RX01 ∨ d = .RX02

/-- One empty sector between two logical ones, six more when the head moves. -/
def rxInterleave : Interleave where
  pattern := [0, 2, 4, 6, 8, 10, 12, 14, 16, 18, 20, 22, 24,
    1, 3, 5, 7, 9, 11, 13, 15, 17, 19, 21, 23, 25]
  cylinderSkew := 6
  headSkew := 0
  perm := by decide

/-- The interleave that `init()` chooses, if any. -/
def interleaveOf (t : FilesystemType) (d : DriveType) : Option Interleave :=
  if t = .rt11 ∧ d.isRX = true then some rxInterleave else none

structure ImagePartition where
  /-- of the drive of the image -/
  geometry : Geometry
  imagePosition : ℕ
  size : ℕ
  blockSize : ℕ
  blockCount : ℕ
  sectorsPerBlock : ℕ
  tables : Tables
  changedBlocks : List Bool

namespace ImagePartition

/-- The constructor: nothing where an assertion fails or a division is by zero. -/
def create (g : Geometry) (imageByteOffset imagePartitionSize : ℕ) : Option ImagePartition :=
  if g.sectorSizeBytes ≠ 0 ∧ imageByteOffset % g.sectorSizeBytes = 0 ∧
      imageByteOffset + imagePartitionSize ≤ g.getRawCapacity then
    some {
      geometry := g
      imagePosition := imageByteOffset
      size := imagePartitionSize
      blockSize := 0
      blockCount := 0
      sectorsPerBlock := 0
      tables := ⟨[], []⟩
      changedBlocks := [] }
  else none

variable (p : ImagePartition)

/-- `sector_size_bytes` -/
abbrev sectorSize : ℕ := p.geometry.sectorSizeBytes

/-- The tables that `init()` builds for an interleave. -/
def buildTables (i : Interleave) : Option Tables :=
  let sectorCount := p.size / p.sectorSize
  let empty : Tables := ⟨List.replicate sectorCount 0, List.replicate sectorCount 0⟩
  (buildInterleaveTable p.geometry p.imagePosition p.size i empty).bind (·.invert sectorCount)

/-- `init()`, for an interleave or none. -/
def init (i : Option Interleave) (blockSize : ℕ) : Option ImagePartition :=
  if blockSize ≠ 0 ∧ p.size % blockSize = 0 then
    let p : ImagePartition := { p with
      blockSize := blockSize
      blockCount := p.size / blockSize
      sectorsPerBlock := blockSize / p.sectorSize
      tables := ⟨[], []⟩
      changedBlocks := List.replicate (p.size / blockSize) false }
    match i with
    | some i => (p.buildTables i).map fun tables => { p with tables := tables }
    | none => some p
  else none

/-- `is_interleaved()` -/
def isInterleaved : Bool := 0 < p.tables.logToPhy.length

/-- `get_image_position_from_physical_sector_nr()` -/
def imagePositionOf (phySectorNr : ℕ) : ℕ := p.imagePosition + phySectorNr * p.sectorSize

/-- `get_physical_sector_nr_from_image_position()` -/
def physicalSectorNrAt (imageByteOffset : ℕ) : ℕ :=
  (imageByteOffset - p.imagePosition) / p.sectorSize

/-- The physical sector of a logical one: nothing behind the end of the table. -/
def physicalSectorNr (logSectorNr : ℕ) : Option ℕ :=
  if p.tables.logToPhy.length = 0 then some logSectorNr else p.tables.logToPhy[logSectorNr]?

/-- `get_physical_sector_nrs_from_blocks()` -/
def physicalSectorNrs (startBlockNr blockCount : ℕ) : Option (List ℕ) :=
  (List.range' (startBlockNr * p.sectorsPerBlock) (blockCount * p.sectorsPerBlock)).mapM
    p.physicalSectorNr

/-- The loop of `get_blocks()` over the sectors -/
def readSectors : List ℕ → Fstream Storage.Byte → Option (List Storage.Byte × Fstream Storage.Byte)
  | [], f => some ([], f)
  | nr :: nrs, f =>
    (Storage.Binfile.read f (BitVec.ofNat 64 (p.imagePositionOf nr)) p.sectorSize).bind fun (data, f) =>
      (readSectors nrs f).map fun (rest, f) => (data ++ rest, f)

/-- `get_blocks()` -/
def getBlocks (f : Fstream Storage.Byte) (startBlockNr blockCount : ℕ) :
    Option (List Storage.Byte × Fstream Storage.Byte) :=
  if p.isInterleaved then
    (p.physicalSectorNrs startBlockNr blockCount).bind fun nrs =>
      if nrs.length * p.sectorSize = blockCount * p.blockSize then readSectors p nrs f else none
  else
    Storage.Binfile.read f (BitVec.ofNat 64 (p.imagePosition + startBlockNr * p.blockSize))
      (blockCount * p.blockSize)

/-- The loop of `set_blocks()` over the sectors -/
def writeSectors (fuel : ℕ) : List ℕ → List Storage.Byte → Fstream Storage.Byte → Option (Fstream Storage.Byte)
  | [], _, f => some f
  | nr :: nrs, data, f =>
    (Storage.Binfile.write fuel f (BitVec.ofNat 64 (p.imagePositionOf nr)) (data.take p.sectorSize)).bind
      (writeSectors fuel nrs (data.drop p.sectorSize))

/-- `set_blocks()`, when the loop that fills the file takes at most `fuel` rounds. -/
def setBlocks (fuel : ℕ) (f : Fstream Storage.Byte) (data : List Storage.Byte) (startBlockNr : ℕ) :
    Option (Fstream Storage.Byte) :=
  if p.isInterleaved then
    if data.length % p.blockSize = 0 then
      (p.physicalSectorNrs startBlockNr (data.length / p.blockSize)).bind fun nrs =>
        if nrs.length * p.sectorSize = data.length / p.blockSize * p.blockSize then
          p.writeSectors fuel nrs data f
        else none
    else none
  else
    Storage.Binfile.write fuel f (BitVec.ofNat 64 (p.imagePosition + startBlockNr * p.blockSize)) data

/-- The block of a physical sector: nothing behind the end of the table. -/
def blockNrOf (phySectorNr : ℕ) : Option ℕ :=
  if p.tables.phyToLog.length = 0 then some (phySectorNr / p.sectorsPerBlock)
  else (p.tables.phyToLog[phySectorNr]?).map (· / p.sectorsPerBlock)

/-- `changed_blocks.at(block_nr) = true` -/
def mark (blockNr : ℕ) : Option ImagePartition :=
  if blockNr < p.changedBlocks.length then
    some { p with changedBlocks := p.changedBlocks.set blockNr true }
  else none

/-- `on_image_sector_write()` -/
def onImageSectorWrite (changedPosition : ℕ) : Option (Bool × ImagePartition) :=
  if changedPosition < p.imagePosition ∨
      p.imagePosition + p.blockCount * p.blockSize ≤ changedPosition then
    some (false, p)
  else
    (p.blockNrOf (p.physicalSectorNrAt changedPosition)).bind fun blockNr =>
      (p.mark blockNr).map (true, ·)

/-! ## What `init()` establishes -/

/-- Whole blocks of whole sectors, in an image of less than 2^32 bytes, and tables for them. -/
structure Laid (p : ImagePartition) : Prop where
  sectorSize_pos : 0 < p.sectorSize
  aligned : p.imagePosition % p.sectorSize = 0
  perBlock_pos : 0 < p.sectorsPerBlock
  block_eq : p.blockSize = p.sectorsPerBlock * p.sectorSize
  size_eq : p.size = p.blockCount * p.blockSize
  capacity : p.imagePosition + p.size < 2 ^ 32
  changed : p.changedBlocks.length = p.blockCount
  phy_length : p.tables.phyToLog.length = p.tables.logToPhy.length
  interleaved : p.isInterleaved = true →
    p.tables.logToPhy.length = p.blockCount * p.sectorsPerBlock ∧
      p.tables.Inverse (p.blockCount * p.sectorsPerBlock)

/-- Tables that are built are inverse to each other, and have an entry for every sector. -/
theorem buildTables_inverse {p : ImagePartition} {i : Interleave} {t : Tables} {n : ℕ}
    (hsize : p.size = n * p.sectorSize) (hpos : 0 < p.sectorSize) (h : p.buildTables i = some t) :
    t.logToPhy.length = n ∧ t.phyToLog.length = n ∧ t.Inverse n := by
  obtain ⟨u, hu, hinvert⟩ := Option.bind_eq_some_iff.mp h
  obtain ⟨hlog, hphy, m, hinverse, hle⟩ := buildInterleaveTable_inverse hu
  have hcount : p.size / p.sectorSize = n := by rw [hsize, Nat.mul_div_cancel _ hpos]
  rw [hcount] at hlog hphy hinvert
  rw [List.length_replicate] at hlog hphy
  -- whole tracks hold the partition, and their sectors are in the tables
  have hmn : m = n := by
    apply le_antisymm
    · by_contra hlt
      obtain ⟨p, -, hget, -⟩ := hinverse.log n (by omega)
      obtain ⟨hlength, -⟩ := List.getElem?_eq_some_iff.mp hget
      omega
    · rw [hsize] at hle
      exact Nat.le_of_mul_le_mul_right hle hpos
  subst hmn
  rw [hinverse.invert] at hinvert
  cases hinvert
  exact ⟨hlog, hphy, hinverse⟩

theorem create_eq_some {g : Geometry} {imagePosition size : ℕ}
    (h : create g imagePosition size = some p) :
    0 < p.sectorSize ∧ p.imagePosition % p.sectorSize = 0 ∧
      p.imagePosition + p.size < 2 ^ 32 ∧ p.geometry = g := by
  unfold create at h
  split at h
  · next hasserts =>
    cases h
    have hlt := g.getRawCapacity_lt
    exact ⟨Nat.pos_of_ne_zero hasserts.1, hasserts.2.1, lt_of_le_of_lt hasserts.2.2 hlt, rfl⟩
  · cases h

/-- The block size has to be a multiple of the sector size. -/
theorem laid_of_init {g : Geometry} {imagePosition size blockSize : ℕ} {i : Option Interleave}
    {q : ImagePartition} (hdvd : g.sectorSizeBytes ∣ blockSize)
    (hcreate : create g imagePosition size = some p) (hinit : p.init i blockSize = some q) :
    q.Laid := by
  obtain ⟨hpos, haligned, hcapacity, rfl⟩ := p.create_eq_some hcreate
  unfold init at hinit
  split at hinit
  · next hwhole =>
    obtain ⟨hblock, hmod⟩ := hwhole
    have hspb : 0 < blockSize / p.sectorSize :=
      Nat.div_pos (Nat.le_of_dvd (Nat.pos_of_ne_zero hblock) hdvd) hpos
    have hblockEq : blockSize = blockSize / p.sectorSize * p.sectorSize :=
      (Nat.div_mul_cancel hdvd).symm
    have hsize : p.size = p.size / blockSize * blockSize := by
      have hdiv := Nat.div_add_mod' p.size blockSize
      omega
    cases i with
    | none =>
      cases hinit
      exact ⟨hpos, haligned, hspb, hblockEq, hsize, hcapacity, List.length_replicate, rfl, by simp [isInterleaved]⟩
    | some i =>
      obtain ⟨t, ht, rfl⟩ := Option.map_eq_some_iff.mp hinit
      have hsectors : p.size = p.size / blockSize * (blockSize / p.sectorSize) * p.sectorSize := by
        rw [Nat.mul_assoc, ← hblockEq]
        exact hsize
      obtain ⟨hlog, hphy, hinverse⟩ := buildTables_inverse hsectors hpos ht
      exact ⟨hpos, haligned, hspb, hblockEq, hsize, hcapacity, List.length_replicate, hphy.trans hlog.symm,
        fun _ => ⟨hlog, hinverse⟩⟩
  · cases hinit

/-! ## Sectors -/

/-- The physical sector of a logical one, in range -/
def physical (logSectorNr : ℕ) : ℕ := (p.physicalSectorNr logSectorNr).getD 0

/-- The number of sectors -/
def sectorCount : ℕ := p.blockCount * p.sectorsPerBlock

/-- The place in the image of a byte of the blocks -/
def bytePosition (offset : ℕ) : ℕ :=
  p.imagePositionOf (p.physical (offset / p.sectorSize)) + offset % p.sectorSize

variable {p}

theorem isInterleaved_iff : p.isInterleaved = true ↔ p.tables.logToPhy.length ≠ 0 := by
  simp [isInterleaved, Nat.pos_iff_ne_zero]

theorem not_isInterleaved_iff : p.isInterleaved = false ↔ p.tables.logToPhy.length = 0 := by
  simp [isInterleaved]

theorem Laid.size_sectors (h : p.Laid) : p.size = p.sectorCount * p.sectorSize := by
  rw [h.size_eq, h.block_eq, sectorCount, Nat.mul_assoc]

theorem physicalSectorNr_of_not_interleaved (hi : p.isInterleaved = false) (l : ℕ) :
    p.physicalSectorNr l = some l :=
  if_pos (not_isInterleaved_iff.mp hi)

theorem physicalSectorNr_of_interleaved (hi : p.isInterleaved = true) (l : ℕ) :
    p.physicalSectorNr l = p.tables.logToPhy[l]? :=
  if_neg (isInterleaved_iff.mp hi)

theorem physical_eq {l phy : ℕ} (h : p.physicalSectorNr l = some phy) : p.physical l = phy := by
  rw [physical, h, Option.getD_some]

/-- Every logical sector has a physical one, whose block is found again. -/
theorem Laid.physicalSectorNr_eq (h : p.Laid) {l : ℕ} (hl : l < p.sectorCount) :
    p.physicalSectorNr l = some (p.physical l) ∧ p.physical l < p.sectorCount ∧
      p.blockNrOf (p.physical l) = some (l / p.sectorsPerBlock) := by
  have hsome : ∃ phy < p.sectorCount, p.physicalSectorNr l = some phy ∧
      p.blockNrOf phy = some (l / p.sectorsPerBlock) := by
    unfold blockNrOf
    rw [h.phy_length]
    cases hi : p.isInterleaved with
    | false =>
      refine ⟨l, hl, physicalSectorNr_of_not_interleaved hi l, ?_⟩
      rw [if_pos (not_isInterleaved_iff.mp hi)]
    | true =>
      obtain ⟨-, hinverse⟩ := h.interleaved hi
      obtain ⟨phy, hlt, hget, hback⟩ := hinverse.log l hl
      refine ⟨phy, hlt, by rw [physicalSectorNr_of_interleaved hi, hget], ?_⟩
      rw [if_neg (isInterleaved_iff.mp hi), hback, Option.map_some]
  obtain ⟨phy, hlt, hget, hblock⟩ := hsome
  rw [physical_eq hget]
  exact ⟨hget, hlt, hblock⟩

/-- Every physical sector is that of a logical one. -/
theorem Laid.exists_physical (h : p.Laid) {phy : ℕ} (hphy : phy < p.sectorCount) :
    ∃ l < p.sectorCount, p.physical l = phy := by
  cases hi : p.isInterleaved with
  | false => exact ⟨phy, hphy, physical_eq (physicalSectorNr_of_not_interleaved hi phy)⟩
  | true =>
    obtain ⟨-, hinverse⟩ := h.interleaved hi
    obtain ⟨l, hl, -, hget⟩ := hinverse.phy phy hphy
    exact ⟨l, hl, physical_eq (by rw [physicalSectorNr_of_interleaved hi, hget])⟩

theorem Laid.physical_injective (h : p.Laid) {l m : ℕ} (hl : l < p.sectorCount)
    (hm : m < p.sectorCount) (heq : p.physical l = p.physical m) : l = m := by
  cases hi : p.isInterleaved with
  | false =>
    rwa [physical_eq (physicalSectorNr_of_not_interleaved hi l),
      physical_eq (physicalSectorNr_of_not_interleaved hi m)] at heq
  | true =>
    obtain ⟨-, hinverse⟩ := h.interleaved hi
    obtain ⟨a, -, hla, hal⟩ := hinverse.log l hl
    obtain ⟨b, -, hmb, hbm⟩ := hinverse.log m hm
    have ha : p.physical l = a := physical_eq (by rw [physicalSectorNr_of_interleaved hi, hla])
    have hb : p.physical m = b := physical_eq (by rw [physicalSectorNr_of_interleaved hi, hmb])
    rw [← ha, heq, hb, hbm] at hal
    exact (Option.some.inj hal).symm

/-! ## Bytes -/

/-- A byte of a sector -/
theorem bytePosition_sector (hpos : 0 < p.sectorSize) {l k : ℕ} (hk : k < p.sectorSize) :
    p.bytePosition (l * p.sectorSize + k) = p.imagePositionOf (p.physical l) + k := by
  have hdiv : (l * p.sectorSize + k) / p.sectorSize = l := by
    rw [Nat.add_comm, Nat.add_mul_div_right _ _ hpos, Nat.div_eq_of_lt hk, Nat.zero_add]
  have hmod : (l * p.sectorSize + k) % p.sectorSize = k := by
    rw [Nat.mul_add_mod_self_right, Nat.mod_eq_of_lt hk]
  rw [bytePosition, hdiv, hmod]

theorem exists_sector (hpos : 0 < p.sectorSize) {n : ℕ} {j : ℕ} (hj : j < n * p.sectorSize) :
    ∃ l < n, ∃ k < p.sectorSize, j = l * p.sectorSize + k :=
  ⟨j / p.sectorSize, (Nat.div_lt_iff_lt_mul hpos).mpr hj, j % p.sectorSize, Nat.mod_lt _ hpos,
    (Nat.div_add_mod' _ _).symm⟩

theorem bytePosition_of_not_interleaved (hi : p.isInterleaved = false) (j : ℕ) :
    p.bytePosition j = p.imagePosition + j := by
  have hdiv := Nat.div_add_mod' j p.sectorSize
  rw [bytePosition, physical_eq (physicalSectorNr_of_not_interleaved hi _), imagePositionOf]
  omega

/-- A sector lies inside the partition. -/
theorem Laid.imagePositionOf_le (h : p.Laid) {phy : ℕ} (hphy : phy < p.sectorCount) :
    p.imagePosition ≤ p.imagePositionOf phy ∧
      p.imagePositionOf phy + p.sectorSize ≤ p.imagePosition + p.size := by
  have hmul : (phy + 1) * p.sectorSize ≤ p.sectorCount * p.sectorSize :=
    Nat.mul_le_mul_right _ hphy
  rw [Nat.succ_mul] at hmul
  rw [h.size_sectors]
  unfold imagePositionOf
  omega

theorem Laid.bytePosition_mem (h : p.Laid) {j : ℕ} (hj : j < p.size) :
    p.imagePosition ≤ p.bytePosition j ∧ p.bytePosition j < p.imagePosition + p.size := by
  rw [h.size_sectors] at hj
  obtain ⟨l, hl, k, hk, rfl⟩ := exists_sector h.sectorSize_pos hj
  have hsector := h.imagePositionOf_le (h.physicalSectorNr_eq hl).2.1
  rw [bytePosition_sector h.sectorSize_pos hk]
  omega

/-- Different bytes have different places. -/
theorem Laid.bytePosition_injective (h : p.Laid) {i j : ℕ} (hi : i < p.size) (hj : j < p.size)
    (heq : p.bytePosition i = p.bytePosition j) : i = j := by
  rw [h.size_sectors] at hi hj
  obtain ⟨l, hl, k, hk, rfl⟩ := exists_sector h.sectorSize_pos hi
  obtain ⟨m, hm, n, hn, rfl⟩ := exists_sector h.sectorSize_pos hj
  rw [bytePosition_sector h.sectorSize_pos hk, bytePosition_sector h.sectorSize_pos hn,
    imagePositionOf, imagePositionOf] at heq
  have hsum : p.physical l * p.sectorSize + k = p.physical m * p.sectorSize + n := by omega
  have hdiv := congrArg (· / p.sectorSize) hsum
  have hmod := congrArg (· % p.sectorSize) hsum
  simp only [Nat.mul_add_mod_self_right, Nat.mod_eq_of_lt hk, Nat.mod_eq_of_lt hn] at hmod
  simp only [Nat.add_comm _ k, Nat.add_comm _ n, Nat.add_mul_div_right _ _ h.sectorSize_pos,
    Nat.div_eq_of_lt hk, Nat.div_eq_of_lt hn, Nat.zero_add] at hdiv
  rw [h.physical_injective hl hm hdiv, hmod]

/-- Every place in the partition is that of a byte. -/
theorem Laid.exists_bytePosition (h : p.Laid) {x : ℕ} (hle : p.imagePosition ≤ x)
    (hlt : x < p.imagePosition + p.size) : ∃ j < p.size, p.bytePosition j = x := by
  obtain ⟨y, rfl⟩ := Nat.exists_eq_add_of_le hle
  have hy : y < p.sectorCount * p.sectorSize := by
    rw [← h.size_sectors]
    omega
  obtain ⟨phy, hphy, k, hk, rfl⟩ := exists_sector h.sectorSize_pos hy
  obtain ⟨l, hl, rfl⟩ := h.exists_physical hphy
  refine ⟨l * p.sectorSize + k, ?_, ?_⟩
  · have hmul : (l + 1) * p.sectorSize ≤ p.sectorCount * p.sectorSize := Nat.mul_le_mul_right _ hl
    rw [Nat.succ_mul] at hmul
    rw [h.size_sectors]
    omega
  · rw [bytePosition_sector h.sectorSize_pos hk, imagePositionOf]
    omega

end ImagePartition

end QUniBone.Sharedfs
