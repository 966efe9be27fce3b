import QUniBone.Sharedfs.ImagePartition

/-!
# Blocks of a partition

What `get_blocks()`, `set_blocks()` and `on_image_sector_write()` do to the bytes of the image and
to the marks, for a partition that `init()` has laid out.

* `BlockHolds`: a byte of the image belongs to a block.
* `Written`: what `set_blocks()` leaves in the image.
* `MapsBlocks`: blocks are read as they have been written, no other block changes, and a write to
  a sector marks its block.
* `maps_blocks_iff`: this is so, unless no block at all is to be read.
-/

namespace QUniBone.Sharedfs.ImagePartition

variable {p : ImagePartition} {f g : Fstream Storage.Byte} {data : List Storage.Byte}

/-! ## Writing -/

/-- The data are in the image at the places of the bytes from `offset` on, all other bytes are as
before. -/
structure Written (p : ImagePartition) (f g : Fstream Storage.Byte) (offset : ℕ)
    (data : List Storage.Byte) : Prop where
  inside : ∀ j < data.length, data[j]? = some (g.file.get (p.bytePosition (offset + j)))
  outside : ∀ x, (∀ j < data.length, x ≠ p.bytePosition (offset + j)) →
    g.file.get x = f.file.get x
  reached : ∀ j < data.length, p.bytePosition (offset + j) < g.file.size
  larger : f.file.size ≤ g.file.size
  bound : g.file.size < 2 ^ 63
  good : f.failbit = false ∨ data ≠ [] → g.failbit = false

/-- The file has a length that `tellp()` can tell, and is not so short that the gap before some
block has no `int` length. -/
structure Roomy (p : ImagePartition) (f : Fstream Storage.Byte) : Prop where
  bound : f.file.size < 2 ^ 63
  gap : p.imagePosition + p.size < f.file.size + 2 ^ 31

theorem Laid.write_at (h : p.Laid) (hf : p.Roomy f) {x : ℕ}
    (hx : x + data.length ≤ p.imagePosition + p.size) :
    (∃ fuel g, Storage.Binfile.write fuel f (BitVec.ofNat 64 x) data = some g) ∧
      ∀ fuel g, Storage.Binfile.write fuel f (BitVec.ofNat 64 x) data = some g →
        g = ⟨f.file.put x data, x + data.length, false, false⟩ := by
  have hcapacity := h.capacity
  have hgap := hf.gap
  have hnat : (BitVec.ofNat 64 x).toNat = x := by
    rw [BitVec.toNat_ofNat, Nat.mod_eq_of_lt (by omega)]
  have hwrite := @Storage.Binfile.write_of_careful f (BitVec.ofNat 64 x) data
    (by rw [hnat]; omega) (by rw [hnat]; omega)
  rwa [hnat] at hwrite

/-- Bytes that lie side by side -/
theorem written_of_put (hf : p.Roomy f) (hsize : p.imagePosition + p.size < 2 ^ 32) {x offset : ℕ}
    (hx : x + data.length ≤ p.imagePosition + p.size)
    (hplace : ∀ j < data.length, p.bytePosition (offset + j) = x + j) :
    p.Written f ⟨f.file.put x data, x + data.length, false, false⟩ offset data := by
  have hbound := hf.bound
  constructor
  · intro j hj
    rw [hplace j hj]
    show _ = some (if x ≤ x + j then (data[x + j - x]?).getD _ else _)
    rw [if_pos (by omega), Nat.add_sub_cancel_left, List.getElem?_eq_getElem hj, Option.getD_some]
  · intro y hy
    show (if x ≤ y then (data[y - x]?).getD _ else _) = _
    split
    · next hle =>
      have hend : data[y - x]? = none := by
        apply List.getElem?_eq_none
        by_contra hlt
        exact hy (y - x) (by omega) (by rw [hplace _ (by omega)]; omega)
      rw [hend, Option.getD_none]
    · rfl
  · intro j hj
    rw [hplace j hj]
    show x + j < max _ _
    omega
  · exact le_max_left _ _
  · show max _ _ < _
    omega
  · intro _
    rfl

/-- One piece after the other -/
theorem Written.append {k : Fstream Storage.Byte} {offset : ℕ} {rest : List Storage.Byte}
    (hinj : ∀ i j, i < data.length + rest.length → j < data.length + rest.length →
      p.bytePosition (offset + i) = p.bytePosition (offset + j) → i = j)
    (hne : data ≠ []) (h : p.Written f g offset data)
    (hrest : p.Written g k (offset + data.length) rest) :
    p.Written f k offset (data ++ rest) := by
  constructor
  · intro j hj
    rw [List.length_append] at hj
    by_cases hlt : j < data.length
    · -- a later piece does not touch this byte
      have hout := hrest.outside (p.bytePosition (offset + j)) fun i hi heq => by
        have := hinj j (data.length + i) (by omega) (by omega) (by rw [heq, Nat.add_assoc])
        omega
      rw [List.getElem?_append_left hlt, h.inside j hlt, hout]
    · obtain ⟨i, rfl⟩ := Nat.exists_eq_add_of_le (Nat.le_of_not_lt hlt)
      have hin := hrest.inside i (by omega)
      rw [List.getElem?_append_right (by omega), Nat.add_sub_cancel_left, hin, Nat.add_assoc]
  · intro x hx
    rw [List.length_append] at hx
    rw [hrest.outside x fun i hi => ?_, h.outside x fun j hj => hx j (by omega)]
    rw [Nat.add_assoc]
    exact hx (data.length + i) (by omega)
  · intro j hj
    rw [List.length_append] at hj
    by_cases hlt : j < data.length
    · exact lt_of_lt_of_le (h.reached j hlt) hrest.larger
    · obtain ⟨i, rfl⟩ := Nat.exists_eq_add_of_le (Nat.le_of_not_lt hlt)
      rw [← Nat.add_assoc]
      exact hrest.reached i (by omega)
  · exact h.larger.trans hrest.larger
  · exact hrest.bound
  · intro _
    exact hrest.good (Or.inl (h.good (Or.inr hne)))

theorem Roomy.of_written {offset : ℕ} (hf : p.Roomy f) (h : p.Written f g offset data) :
    p.Roomy g := by
  have hgap := hf.gap
  have hlarger := h.larger
  exact ⟨h.bound, by omega⟩

theorem writeSectors_mono {m n : ℕ} (hmn : m ≤ n) {nrs : List ℕ}
    (h : p.writeSectors m nrs data f = some g) : p.writeSectors n nrs data f = some g := by
  induction nrs generalizing data f with
  | nil => exact h
  | cons nr nrs ih =>
    obtain ⟨k, hk, hrest⟩ := Option.bind_eq_some_iff.mp h
    exact Option.bind_eq_some_iff.mpr ⟨k, Storage.Binfile.write_mono hmn hk, ih hrest⟩

/-- The loop over the sectors, by induction on how many there are. -/
theorem Laid.writeSectors_written (h : p.Laid) (m : ℕ) :
    ∀ (a : ℕ) (data : List Storage.Byte) (f : Fstream Storage.Byte), p.Roomy f →
      a + m ≤ p.sectorCount → data.length = m * p.sectorSize →
      (∃ fuel g, p.writeSectors fuel ((List.range' a m).map p.physical) data f = some g) ∧
        ∀ fuel g, p.writeSectors fuel ((List.range' a m).map p.physical) data f = some g →
          p.Written f g (a * p.sectorSize) data := by
  induction m with
  | zero =>
    intro a data f hf _ hlength
    obtain rfl : data = [] := List.eq_nil_of_length_eq_zero (by omega)
    refine ⟨⟨0, f, rfl⟩, fun fuel g hg => ?_⟩
    obtain rfl : f = g := Option.some.inj hg
    exact ⟨by simp, by simp, by simp, le_rfl, hf.bound, by simp⟩
  | succ m ih =>
    intro a data f hf hend hlength
    have hpos := h.sectorSize_pos
    rw [Nat.succ_mul] at hlength
    have htake : (data.take p.sectorSize).length = p.sectorSize := by
      rw [List.length_take]
      omega
    have hdrop : (data.drop p.sectorSize).length = m * p.sectorSize := by
      rw [List.length_drop]
      omega
    have hsector := h.imagePositionOf_le (h.physicalSectorNr_eq (show a < p.sectorCount by omega)).2.1
    obtain ⟨⟨fuel₁, g₁, hg₁⟩, hwrite⟩ := h.write_at hf
      (show p.imagePositionOf (p.physical a) + (data.take p.sectorSize).length ≤
        p.imagePosition + p.size by omega)
    have hfirst : ∀ fuel g, Storage.Binfile.write fuel f
        (BitVec.ofNat 64 (p.imagePositionOf (p.physical a))) (data.take p.sectorSize) = some g →
        p.Written f g (a * p.sectorSize) (data.take p.sectorSize) := by
      intro fuel g hg
      rw [hwrite fuel g hg]
      refine written_of_put hf h.capacity (by omega) fun j hj => ?_
      rw [bytePosition_sector hpos (by omega)]
    have hrest := fun g (hg : p.Roomy g) =>
      ih (a + 1) (data.drop p.sectorSize) g hg (by omega) hdrop
    have hunfold : ∀ fuel, p.writeSectors fuel ((List.range' a (m + 1)).map p.physical) data f =
        (Storage.Binfile.write fuel f (BitVec.ofNat 64 (p.imagePositionOf (p.physical a)))
          (data.take p.sectorSize)).bind (p.writeSectors fuel
            ((List.range' (a + 1) m).map p.physical) (data.drop p.sectorSize)) := fun _ => rfl
    constructor
    · obtain ⟨⟨fuel₂, g₂, hg₂⟩, -⟩ := hrest g₁ (hf.of_written (hfirst fuel₁ g₁ hg₁))
      refine ⟨max fuel₁ fuel₂, g₂, ?_⟩
      rw [hunfold, Storage.Binfile.write_mono (le_max_left _ _) hg₁, Option.bind_some]
      exact writeSectors_mono (le_max_right _ _) hg₂
    · intro fuel k hk
      rw [hunfold] at hk
      obtain ⟨g, hg, hgk⟩ := Option.bind_eq_some_iff.mp hk
      have hwritten := hfirst fuel g hg
      have hbehind := (hrest g (hf.of_written hwritten)).2 fuel k hgk
      have hlast : (a + 1) * p.sectorSize = a * p.sectorSize + (data.take p.sectorSize).length := by
        rw [htake, Nat.succ_mul]
      rw [hlast] at hbehind
      rw [← List.take_append_drop p.sectorSize data]
      refine hwritten.append ?_ ?_ hbehind
      · intro i j hi hj heq
        rw [htake, hdrop] at hi hj
        have hbytes : (a + (m + 1)) * p.sectorSize ≤ p.size := by
          rw [h.size_sectors]
          exact Nat.mul_le_mul_right _ hend
        rw [Nat.add_mul, Nat.succ_mul] at hbytes
        have := h.bytePosition_injective (by omega) (by omega) heq
        omega
      · intro hnil
        rw [hnil] at htake
        simp at htake
        omega

/-! ## Block ranges -/

/-- The sectors of a range of blocks -/
theorem Laid.physicalSectorNrs_eq (h : p.Laid) {start count : ℕ}
    (hrange : start + count ≤ p.blockCount) :
    p.physicalSectorNrs start count =
      some ((List.range' (start * p.sectorsPerBlock) (count * p.sectorsPerBlock)).map p.physical) := by
  have hend : (start + count) * p.sectorsPerBlock ≤ p.sectorCount :=
    Nat.mul_le_mul_right _ hrange
  rw [Nat.add_mul] at hend
  have hall : ∀ ls : List ℕ, (∀ l ∈ ls, l < p.sectorCount) →
      ls.mapM p.physicalSectorNr = some (ls.map p.physical) := by
    intro ls
    induction ls with
    | nil =>
      intro _
      rfl
    | cons l ls ih =>
      intro hls
      rw [List.forall_mem_cons] at hls
      rw [List.mapM_cons, (h.physicalSectorNr_eq hls.1).1, ih hls.2]
      rfl
  refine hall _ fun l hl => ?_
  rw [List.mem_range'_1] at hl
  omega

/-- A range of blocks in bytes -/
theorem Laid.block_range (h : p.Laid) {start count : ℕ} (hrange : start + count ≤ p.blockCount) :
    start * p.blockSize + count * p.blockSize ≤ p.size := by
  rw [h.size_eq, ← Nat.add_mul]
  exact Nat.mul_le_mul_right _ hrange

theorem Laid.blockSize_pos (h : p.Laid) : 0 < p.blockSize := by
  rw [h.block_eq]
  exact Nat.mul_pos h.perBlock_pos h.sectorSize_pos

/-- `set_blocks()` returns, and leaves the data in the image. -/
theorem Laid.setBlocks_written (h : p.Laid) (hf : p.Roomy f) {start count : ℕ}
    (hrange : start + count ≤ p.blockCount) (hlength : data.length = count * p.blockSize) :
    (∃ fuel g, p.setBlocks fuel f data start = some g) ∧
      ∀ fuel g, p.setBlocks fuel f data start = some g →
        p.Written f g (start * p.blockSize) data := by
  have hbytes := h.block_range hrange
  cases hi : p.isInterleaved with
  | false =>
    have hset : ∀ fuel, p.setBlocks fuel f data start = Storage.Binfile.write fuel f
        (BitVec.ofNat 64 (p.imagePosition + start * p.blockSize)) data := fun fuel => by
      simp [setBlocks, hi]
    have hx : p.imagePosition + start * p.blockSize + data.length ≤ p.imagePosition + p.size := by
      omega
    obtain ⟨⟨fuel, g, hg⟩, hwrite⟩ := h.write_at hf hx
    refine ⟨⟨fuel, g, by rw [hset, hg]⟩, fun fuel g hg => ?_⟩
    rw [hset] at hg
    rw [hwrite fuel g hg]
    refine written_of_put hf h.capacity hx fun j _ => ?_
    rw [bytePosition_of_not_interleaved hi, Nat.add_assoc]
  | true =>
    have hcount : data.length / p.blockSize = count := by
      rw [hlength, Nat.mul_div_cancel _ h.blockSize_pos]
    have hset : ∀ fuel, p.setBlocks fuel f data start = p.writeSectors fuel
        ((List.range' (start * p.sectorsPerBlock) (count * p.sectorsPerBlock)).map p.physical)
        data f := fun fuel => by
      have hwhole : data.length % p.blockSize = 0 := by rw [hlength, Nat.mul_mod_left]
      rw [setBlocks, if_pos hi, if_pos hwhole, hcount, h.physicalSectorNrs_eq hrange,
        Option.bind_some, if_pos (by simp [h.block_eq, Nat.mul_assoc])]
    have hend : (start + count) * p.sectorsPerBlock ≤ p.sectorCount :=
      Nat.mul_le_mul_right _ hrange
    rw [Nat.add_mul] at hend
    have hwritten := h.writeSectors_written (count * p.sectorsPerBlock)
      (start * p.sectorsPerBlock) data f hf hend (by rw [hlength, h.block_eq, Nat.mul_assoc])
    rw [Nat.mul_assoc, ← h.block_eq] at hwritten
    simpa only [hset] using hwritten

/-! ## Reading -/

/-- What is read, and that the stream stays as it is. -/
theorem Laid.readSectors_eq (h : p.Laid) (hbound : f.file.size < 2 ^ 63) (m : ℕ) :
    ∀ (a : ℕ) (f' : Fstream Storage.Byte), f'.file = f.file → (m ≠ 0 → f'.failbit = false) →
      a + m ≤ p.sectorCount →
      (∀ j < m * p.sectorSize, p.bytePosition (a * p.sectorSize + j) < f.file.size) →
      ∃ data g, p.readSectors ((List.range' a m).map p.physical) f' = some (data, g) ∧
        data.length = m * p.sectorSize ∧ ∀ j < m * p.sectorSize,
          data[j]? = some (f.file.get (p.bytePosition (a * p.sectorSize + j))) := by
  induction m with
  | zero =>
    intro a f' _ _ _ _
    exact ⟨[], f', rfl, by simp, by simp⟩
  | succ m ih =>
    intro a f' hfile hgood hend hreached
    have hpos := h.sectorSize_pos
    rw [Nat.succ_mul] at hreached
    have hcapacity := h.capacity
    have hsector := h.imagePositionOf_le (h.physicalSectorNr_eq (show a < p.sectorCount by omega)).2.1
    have hplace : ∀ j < p.sectorSize, p.bytePosition (a * p.sectorSize + j) =
        p.imagePositionOf (p.physical a) + j := fun j hj => bytePosition_sector hpos hj
    -- the file reaches behind the sector
    have hlast := hreached (p.sectorSize - 1) (by omega)
    rw [hplace _ (by omega)] at hlast
    have hnat : (BitVec.ofNat 64 (p.imagePositionOf (p.physical a))).toNat =
        p.imagePositionOf (p.physical a) := by
      rw [BitVec.toNat_ofNat, Nat.mod_eq_of_lt (by omega)]
    have hread := Storage.Binfile.read_inside f'
      (BitVec.ofNat 64 (p.imagePositionOf (p.physical a))) (show p.sectorSize ≠ 0 by omega)
      (hgood (by omega)) (by rw [hnat, hfile]; omega) (by rw [hfile]; exact hbound)
    rw [hnat, hfile] at hread
    have hnext : ∀ j, (a + 1) * p.sectorSize + j = a * p.sectorSize + (p.sectorSize + j) := by
      intro j
      rw [Nat.succ_mul]
      omega
    obtain ⟨rest, g, hrest, hlength, hbytes⟩ := ih (a + 1)
      ⟨f.file, p.imagePositionOf (p.physical a) + p.sectorSize, false, false⟩ rfl (fun _ => rfl)
      (by omega) fun j hj => by
        rw [hnext]
        exact hreached (p.sectorSize + j) (by omega)
    refine ⟨f.file.slice (p.imagePositionOf (p.physical a)) p.sectorSize ++ rest, g, ?_, ?_, ?_⟩
    · rw [List.range'_succ, List.map_cons, readSectors, hread, Option.bind_some]
      dsimp only
      rw [hrest, Option.map_some]
    · rw [List.length_append, SparseArray.length_slice, hlength, Nat.succ_mul]
      omega
    · intro j hj
      rw [Nat.succ_mul] at hj
      rw [List.getElem?_append, SparseArray.length_slice, SparseArray.getElem?_slice]
      by_cases hlt : j < p.sectorSize
      · rw [if_pos hlt, if_pos hlt, hplace j hlt]
      · rw [if_neg hlt, hbytes _ (by omega), hnext, Nat.add_sub_cancel' (Nat.le_of_not_lt hlt)]

/-- What has been written is read back, unless nothing is to be read at once. -/
theorem Laid.getBlocks_written (h : p.Laid) {start count : ℕ}
    (hrange : start + count ≤ p.blockCount) (hlength : data.length = count * p.blockSize)
    (hw : p.Written f g (start * p.blockSize) data) :
    (∃ k, p.getBlocks g start count = some (data, k)) ↔ 0 < count ∨ p.isInterleaved = true := by
  have hbytes := h.block_range hrange
  have hcapacity := h.capacity
  have hblock := h.blockSize_pos
  have hgood : count ≠ 0 → g.failbit = false := fun hcount => hw.good <| Or.inr fun hnil => by
    rw [hnil] at hlength
    simp at hlength
    omega
  cases hi : p.isInterleaved with
  | false =>
    have hget : p.getBlocks g start count = Storage.Binfile.read g
        (BitVec.ofNat 64 (p.imagePosition + start * p.blockSize)) (count * p.blockSize) := by
      simp [getBlocks, hi]
    by_cases hcount : count = 0
    · subst hcount
      simp [hget, Storage.Binfile.read]
    · have hnat : (BitVec.ofNat 64 (p.imagePosition + start * p.blockSize)).toNat =
          p.imagePosition + start * p.blockSize := by
        rw [BitVec.toNat_ofNat, Nat.mod_eq_of_lt (by omega)]
      have hpositive : 0 < count * p.blockSize := Nat.mul_pos (by omega) hblock
      have hlast := hw.reached (count * p.blockSize - 1) (by omega)
      rw [bytePosition_of_not_interleaved hi] at hlast
      have hread := Storage.Binfile.read_inside g
        (BitVec.ofNat 64 (p.imagePosition + start * p.blockSize))
        (show count * p.blockSize ≠ 0 by omega) (hgood hcount) (by rw [hnat]; omega) hw.bound
      rw [hnat] at hread
      have hdata : g.file.slice (p.imagePosition + start * p.blockSize) (count * p.blockSize) =
          data := by
        refine List.ext_getElem? fun j => ?_
        rw [SparseArray.getElem?_slice]
        split
        · next hj =>
          rw [hw.inside j (by omega), bytePosition_of_not_interleaved hi, Nat.add_assoc]
        · next hj => rw [List.getElem?_eq_none (by omega)]
      rw [hget, hread, hdata]
      constructor
      · intro _
        exact Or.inl (by omega)
      · intro _
        exact ⟨_, rfl⟩
  | true =>
    have hend : (start + count) * p.sectorsPerBlock ≤ p.sectorCount :=
      Nat.mul_le_mul_right _ hrange
    rw [Nat.add_mul] at hend
    have hsectors : count * p.sectorsPerBlock * p.sectorSize = count * p.blockSize := by
      rw [h.block_eq, Nat.mul_assoc]
    have hstart : start * p.sectorsPerBlock * p.sectorSize = start * p.blockSize := by
      rw [h.block_eq, Nat.mul_assoc]
    have hcountPos : count * p.sectorsPerBlock ≠ 0 → count ≠ 0 := by
      rintro hne rfl
      exact hne (Nat.zero_mul _)
    obtain ⟨read, k, hread, hreadLength, hreadBytes⟩ := h.readSectors_eq hw.bound
      (count * p.sectorsPerBlock) (start * p.sectorsPerBlock) g rfl (fun hne => hgood (hcountPos hne))
      hend fun j hj => by
        rw [hstart]
        exact hw.reached j (by omega)
    have hdata : read = data := by
      refine List.ext_getElem? fun j => ?_
      by_cases hj : j < data.length
      · rw [hreadBytes j (by omega), hstart, hw.inside j hj]
      · rw [List.getElem?_eq_none (by omega), List.getElem?_eq_none (by omega)]
    have hget : p.getBlocks g start count = some (data, k) := by
      rw [getBlocks, if_pos hi, h.physicalSectorNrs_eq hrange, Option.bind_some,
        if_pos (by simpa using hsectors), hread, hdata]
    rw [hget]
    constructor
    · intro _
      exact Or.inr rfl
    · intro _
      exact ⟨k, rfl⟩

/-! ## The block of a byte -/

/-- The byte at `x` is in a sector of the block. -/
def BlockHolds (p : ImagePartition) (blockNr x : ℕ) : Prop :=
  ∃ nrs, p.physicalSectorNrs blockNr 1 = some nrs ∧
    ∃ nr ∈ nrs, p.imagePositionOf nr ≤ x ∧ x < p.imagePositionOf nr + p.sectorSize

/-- Sectors and blocks of a byte -/
theorem Laid.div_blockSize (h : p.Laid) (j : ℕ) :
    j / p.blockSize = j / p.sectorSize / p.sectorsPerBlock := by
  rw [h.block_eq, Nat.div_div_eq_div_mul, Nat.mul_comm]

theorem Laid.blockHolds_iff (h : p.Laid) {b x : ℕ} (hb : b < p.blockCount) :
    p.BlockHolds b x ↔ ∃ j < p.size, j / p.blockSize = b ∧ p.bytePosition j = x := by
  have hspb := h.perBlock_pos
  have hsectors := h.physicalSectorNrs_eq (show b + 1 ≤ p.blockCount by omega)
  have hend : (b + 1) * p.sectorsPerBlock ≤ p.sectorCount := Nat.mul_le_mul_right _ hb
  rw [Nat.succ_mul] at hend
  constructor
  · rintro ⟨nrs, hnrs, nr, hnr, hle, hlt⟩
    rw [hsectors] at hnrs
    cases hnrs
    obtain ⟨l, hl, rfl⟩ := List.mem_map.mp hnr
    rw [List.mem_range'_1, Nat.one_mul] at hl
    obtain ⟨k, rfl⟩ := Nat.exists_eq_add_of_le hle
    have hk : k < p.sectorSize := by omega
    have hplace := bytePosition_sector h.sectorSize_pos (l := l) hk
    refine ⟨l * p.sectorSize + k, ?_, ?_, hplace⟩
    · have hmul : (l + 1) * p.sectorSize ≤ p.sectorCount * p.sectorSize :=
        Nat.mul_le_mul_right _ (by omega)
      rw [Nat.succ_mul] at hmul
      rw [h.size_sectors]
      omega
    · have hdiv : (l * p.sectorSize + k) / p.sectorSize = l := by
        rw [Nat.add_comm, Nat.add_mul_div_right _ _ h.sectorSize_pos, Nat.div_eq_of_lt hk,
          Nat.zero_add]
      rw [h.div_blockSize, hdiv]
      exact Nat.div_eq_of_lt_le hl.1 (by rw [Nat.succ_mul]; exact hl.2)
  · rintro ⟨j, hj, hblock, rfl⟩
    rw [h.size_sectors] at hj
    obtain ⟨l, hl, k, hk, rfl⟩ := exists_sector h.sectorSize_pos hj
    have hdiv : (l * p.sectorSize + k) / p.sectorSize = l := by
      rw [Nat.add_comm, Nat.add_mul_div_right _ _ h.sectorSize_pos, Nat.div_eq_of_lt hk,
        Nat.zero_add]
    rw [h.div_blockSize, hdiv] at hblock
    have hmod := Nat.div_add_mod' l p.sectorsPerBlock
    have hlt := Nat.mod_lt l hspb
    rw [hblock] at hmod
    refine ⟨_, hsectors, p.physical l, List.mem_map.mpr ⟨l, ?_, rfl⟩, ?_⟩
    · rw [List.mem_range'_1, Nat.one_mul]
      omega
    · rw [bytePosition_sector h.sectorSize_pos hk]
      omega

/-- A byte of the image is in one block at most. -/
theorem Laid.blockHolds_unique (h : p.Laid) {b c x : ℕ} (hb : b < p.blockCount)
    (hc : c < p.blockCount) (hbx : p.BlockHolds b x) (hcx : p.BlockHolds c x) : b = c := by
  obtain ⟨i, hi, rfl, rfl⟩ := (h.blockHolds_iff hb).mp hbx
  obtain ⟨j, hj, rfl, heq⟩ := (h.blockHolds_iff hc).mp hcx
  rw [h.bytePosition_injective hj hi heq]

theorem onImageSectorWrite_outside (h : p.Laid) {x : ℕ}
    (hx : x < p.imagePosition ∨ p.imagePosition + p.size ≤ x) :
    p.onImageSectorWrite x = some (false, p) := by
  rw [h.size_eq] at hx
  exact if_pos hx

/-- The block of a byte of the partition is marked. -/
theorem Laid.onImageSectorWrite_inside (h : p.Laid) {x : ℕ} (hle : p.imagePosition ≤ x)
    (hlt : x < p.imagePosition + p.size) :
    ∃ b < p.blockCount, p.BlockHolds b x ∧
      p.onImageSectorWrite x = some (true, { p with changedBlocks := p.changedBlocks.set b true }) := by
  obtain ⟨j, hj, rfl⟩ := h.exists_bytePosition hle hlt
  have hb : j / p.blockSize < p.blockCount := by
    rw [Nat.div_lt_iff_lt_mul h.blockSize_pos, ← h.size_eq]
    exact hj
  refine ⟨j / p.blockSize, hb, (h.blockHolds_iff hb).mpr ⟨j, hj, rfl, rfl⟩, ?_⟩
  have hl : j / p.sectorSize < p.sectorCount := by
    rw [Nat.div_lt_iff_lt_mul h.sectorSize_pos, ← h.size_sectors]
    exact hj
  have hsector : p.physicalSectorNrAt (p.bytePosition j) = p.physical (j / p.sectorSize) := by
    have hk := Nat.mod_lt j h.sectorSize_pos
    rw [physicalSectorNrAt, bytePosition, imagePositionOf, Nat.add_assoc, Nat.add_sub_cancel_left,
      Nat.add_comm, Nat.add_mul_div_right _ _ h.sectorSize_pos, Nat.div_eq_of_lt hk, Nat.zero_add]
  have hinside : ¬(p.bytePosition j < p.imagePosition ∨
      p.imagePosition + p.blockCount * p.blockSize ≤ p.bytePosition j) := by
    rw [← h.size_eq]
    omega
  rw [onImageSectorWrite, if_neg hinside, hsector, (h.physicalSectorNr_eq hl).2.2,
    Option.bind_some, mark, ← h.div_blockSize, if_pos (by rw [h.changed]; exact hb),
    Option.map_some]

/-! ## The mapping of blocks -/

/-- The tables are inverse to each other; the data that `set_blocks()` writes into some blocks is
what `get_blocks()` then reads; no byte of another block changes; and a write to the image marks
the block that holds the byte, and no other. -/
structure MapsBlocks (p : ImagePartition) (f : Fstream Storage.Byte) (start count : ℕ)
    (data : List Storage.Byte) : Prop where
  inverse : p.isInterleaved = true → p.tables.logToPhy.length = p.sectorCount ∧
    p.tables.phyToLog.length = p.sectorCount ∧ p.tables.Inverse p.sectorCount
  writes : ∃ fuel g, p.setBlocks fuel f data start = some g
  readsBack : ∀ fuel g, p.setBlocks fuel f data start = some g →
    ∃ k, p.getBlocks g start count = some (data, k)
  others : ∀ fuel g, p.setBlocks fuel f data start = some g → ∀ b < p.blockCount,
    b < start ∨ start + count ≤ b → ∀ x, p.BlockHolds b x → g.file.get x = f.file.get x
  marks : ∀ x, p.imagePosition ≤ x → x < p.imagePosition + p.size → ∃ b < p.blockCount,
    p.BlockHolds b x ∧ (∀ c < p.blockCount, p.BlockHolds c x → c = b) ∧
      p.onImageSectorWrite x = some (true, { p with changedBlocks := p.changedBlocks.set b true })
  elsewhere : ∀ x, x < p.imagePosition ∨ p.imagePosition + p.size ≤ x →
    p.onImageSectorWrite x = some (false, p)

/-- What has been written is in the blocks of the range. -/
theorem Laid.others_kept (h : p.Laid) {start count b x : ℕ}
    (hrange : start + count ≤ p.blockCount) (hlength : data.length = count * p.blockSize)
    (hw : p.Written f g (start * p.blockSize) data) (hb : b < p.blockCount)
    (hother : b < start ∨ start + count ≤ b) (hx : p.BlockHolds b x) :
    g.file.get x = f.file.get x := by
  have hbytes := h.block_range hrange
  obtain ⟨i, hi, rfl, rfl⟩ := (h.blockHolds_iff hb).mp hx
  refine hw.outside _ fun j hj heq => ?_
  obtain rfl := h.bytePosition_injective hi (by omega) heq
  rcases hother with hbefore | hbehind
  · rw [Nat.div_lt_iff_lt_mul h.blockSize_pos] at hbefore
    omega
  · rw [Nat.le_div_iff_mul_le h.blockSize_pos, Nat.add_mul] at hbehind
    omega

/-- The blocks of a partition are mapped to its sectors one to one, however the sectors are
interleaved. Only an empty range is not read back, where blocks are read at once. -/
theorem maps_blocks_iff {g : Geometry} {imagePosition size blockSize : ℕ} {i : Option Interleave}
    {q : ImagePartition} (hdvd : g.sectorSizeBytes ∣ blockSize)
    (hcreate : create g imagePosition size = some q) (hinit : q.init i blockSize = some p)
    (hf : p.Roomy f) {start count : ℕ} (hrange : start + count ≤ p.blockCount)
    (hlength : data.length = count * p.blockSize) :
    p.MapsBlocks f start count data ↔ 0 < count ∨ p.isInterleaved = true := by
  have h := q.laid_of_init hdvd hcreate hinit
  obtain ⟨⟨fuel, k, hk⟩, hwritten⟩ := h.setBlocks_written hf hrange hlength
  constructor
  · intro hmaps
    exact (h.getBlocks_written hrange hlength (hwritten fuel k hk)).mp (hmaps.readsBack fuel k hk)
  · intro hread
    constructor
    · intro hi
      obtain ⟨hlog, hinverse⟩ := h.interleaved hi
      exact ⟨hlog, h.phy_length.trans hlog, hinverse⟩
    · exact ⟨fuel, k, hk⟩
    · intro fuel k hk
      exact (h.getBlocks_written hrange hlength (hwritten fuel k hk)).mpr hread
    · intro fuel k hk b hb hother x hx
      exact h.others_kept hrange hlength (hwritten fuel k hk) hb hother hx
    · intro x hle hlt
      obtain ⟨b, hb, hbx, hmark⟩ := h.onImageSectorWrite_inside hle hlt
      exact ⟨b, hb, hbx, fun c hc hcx => h.blockHolds_unique hc hb hcx hbx, hmark⟩
    · intro x hx
      exact onImageSectorWrite_outside h hx

/-! ## An RK05 -/

/-- The geometry of an RK05 -/
def rk05Geometry : Geometry where
  cylinderCount := 203
  headCount := 2
  sectorCount := 12
  sectorSizeBytes := 512
  badSectorFileOffset := 0
  mscpBlockCount := 0
  filesystemOffset := 0

/-- Its partition, which is the whole disk -/
def rk05Partition : ImagePartition where
  geometry := rk05Geometry
  imagePosition := 0
  size := 2494464
  blockSize := 512
  blockCount := 4872
  sectorsPerBlock := 1
  tables := ⟨[], []⟩
  changedBlocks := List.replicate 4872 false

theorem rk05_init : ∃ q, create rk05Geometry 0 2494464 = some q ∧
    q.init (interleaveOf .rt11 .RK035) 512 = some rk05Partition :=
  ⟨_, rfl, rfl⟩

/-- A block of an RK05 that is written can be read. -/
theorem maps_blocks_rk05 : rk05Partition.MapsBlocks (.openAte .empty) 7 1 (List.replicate 512 1) := by
  obtain ⟨q, hcreate, hinit⟩ := rk05_init
  refine (maps_blocks_iff ⟨1, rfl⟩ hcreate hinit ⟨by decide, by decide⟩ (by decide) ?_).mpr
    (Or.inl Nat.one_pos)
  rw [List.length_replicate]
  rfl

/-- Reading no block of it fails. -/
theorem empty_range_rk05 : (∃ q, create rk05Geometry 0 2494464 = some q ∧
    q.init (interleaveOf .rt11 .RK035) 512 = some rk05Partition) ∧
      ¬rk05Partition.MapsBlocks (.openAte .empty) 7 0 [] := by
  refine ⟨rk05_init, fun hmaps => ?_⟩
  obtain ⟨fuel, g, hg⟩ := hmaps.writes
  obtain ⟨k, hk⟩ := hmaps.readsBack fuel g hg
  have hnone : rk05Partition.getBlocks g 7 0 = none := rfl
  rw [hnone] at hk
  cases hk

end QUniBone.Sharedfs.ImagePartition
