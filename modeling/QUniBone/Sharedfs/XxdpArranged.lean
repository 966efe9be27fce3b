import QUniBone.Sharedfs.XxdpPlacement
import Mathlib.Algebra.Order.BigOperators.Group.List
import Mathlib.Algebra.Order.Group.Nat
import Mathlib.Data.List.Perm.Basic

/-!
# XXDP: blocks of their own

Every object of the file system must have blocks that no other object has.

* `Fs.areas`, `Fs.Arranged`: the blocks of all objects, and what a layout owes them.
* `LayoutInfo.Tiles`: the areas of a drive fill its preallocated blocks.
* `Accepted`: what holds of file systems that host files have been imported into.
* `arranged_iff`: when the layout is right.
* `layoutTest_iff`: when the test for a new file agrees with the layout.
-/

namespace QUniBone.XXDP

open Sharedfs

namespace Fs

/-- Boot block, monitor, MFD, bitmap, UFD, and each file -/
def areas (s : Fs) : List (List ℕ) :=
  [[s.layoutInfo.bootBlockNr],
    List.range' s.monitorStartBlockNr s.monitorMaxBlockCount,
    s.mfdBlockList.map (·.startBlockNr),
    s.bitmapBlockList.map (·.startBlockNr),
    s.ufdBlockList.map (·.startBlockNr)] ++ s.fileNrs

structure Arranged (s : Fs) : Prop where
  disjoint : s.areas.Pairwise List.Disjoint
  nodup : ∀ a ∈ s.areas, a.Nodup
  inside : ∀ a ∈ s.areas, ∀ n ∈ a, n < s.blockcount
  /-- an entry for every file -/
  ufdRoom : s.userFiles.length ≤ ufdEntriesPerBlock * s.ufdBlockList.length
  fileRoom : ∀ f ∈ s.userFiles, f.fileSize ≤ blockDatasize * f.blockNrList.length
  used : ∀ n, s.bitmapUsed n = true ↔ ∃ a ∈ s.areas, n ∈ a

end Fs

/-! ## Areas of a drive -/

namespace LayoutInfo

/-- The number of MFD blocks -/
def mfdCount (l : LayoutInfo) : ℕ := if l.mfd2.isSome then 2 else 1

/-- Behind the boot block come the MFD, then UFD and bitmap in one order or the other, and the
monitor has what remains of the preallocated blocks. -/
structure Tiles (l : LayoutInfo) : Prop where
  boot : l.bootBlockNr = 0
  mfd1 : l.mfd1 = 1
  mfd2 : l.mfd2 = none ∨ l.mfd2 = some 2
  tables :
    (l.ufdBlock1 = 1 + l.mfdCount ∧ l.bitmapBlock1 = l.ufdBlock1 + l.ufdBlocksNum ∧
        l.monitorCoreImageStartBlockNr = l.bitmapBlock1 + l.bitmapBlockCount) ∨
      (l.bitmapBlock1 = 1 + l.mfdCount ∧ l.ufdBlock1 = l.bitmapBlock1 + l.bitmapBlockCount ∧
        l.monitorCoreImageStartBlockNr = l.ufdBlock1 + l.ufdBlocksNum)
  monitor : l.monitorCoreImageStartBlockNr ≤ l.preallocBlocksNum

/-- A preallocated block that no area has -/
def Gap (l : LayoutInfo) (n : ℕ) : Prop :=
  n < l.preallocBlocksNum ∧ n ≠ l.bootBlockNr ∧ n < l.monitorCoreImageStartBlockNr ∧
    n ∉ l.mfdNrs l.mfdVariety ∧ n ∉ blockRow l.bitmapBlock1 l.bitmapBlockCount ∧
      n ∉ blockRow l.ufdBlock1 l.ufdBlocksNum

/-- A block of the UFD that the bitmap or the monitor has, too -/
def Overlap (l : LayoutInfo) (n : ℕ) : Prop :=
  n ∈ blockRow l.ufdBlock1 l.ufdBlocksNum ∧
    (n ∈ blockRow l.bitmapBlock1 l.bitmapBlockCount ∨
      l.monitorCoreImageStartBlockNr ≤ n ∧ n < l.preallocBlocksNum)

/-- The areas are right, or there is a visible defect. -/
def Known (l : LayoutInfo) : Prop :=
  l.Tiles ∨ (∃ n, l.Gap n) ∨ (∃ n, l.Overlap n) ∨
    l.preallocBlocksNum < l.monitorCoreImageStartBlockNr ∧
      l.monitorCoreImageStartBlockNr < 2 ^ 16

end LayoutInfo

/-- A file system as the constructor makes it, but for its files -/
structure Mounted (s : Fs) : Prop where
  preallocated : s.preallocatedBlockcount = s.layoutInfo.preallocBlocksNum
  monitorStart : s.monitorStartBlockNr = s.layoutInfo.monitorCoreImageStartBlockNr
  monitorMax : s.monitorMaxBlockCount =
    (s.layoutInfo.preallocBlocksNum + 2 ^ 16 - s.layoutInfo.monitorCoreImageStartBlockNr) % 2 ^ 16
  variety : s.mfdVariety = s.layoutInfo.mfdVariety
  reserved : 0 < s.preallocatedBlockcount
  room : s.preallocatedBlockcount < s.blockcount
  small : s.blockcount ≤ 2 ^ 16
  areas : s.layoutInfo.Known

theorem Mounted.withTree {s : Fs} (h : Mounted s) (t : FileTree File) :
    Mounted { s with tree := t } :=
  ⟨h.preallocated, h.monitorStart, h.monitorMax, h.variety, h.reserved, h.room, h.small, h.areas⟩

theorem Mounted.mfdVariety {s : Fs} (h : Mounted s) : s.mfdVariety = 1 ∨ s.mfdVariety = 2 := by
  rw [h.variety, LayoutInfo.mfdVariety]
  split
  · exact Or.inl rfl
  · exact Or.inr rfl

theorem mounted_init {l : LayoutInfo} {blocks : ℕ} (hpos : 0 < l.preallocBlocksNum)
    (hpre : l.preallocBlocksNum < blocks)
    (hsmall : l.preallocBlocksNum < 2 ^ 16)
    (hareas : l.Known) : Mounted (Fs.init l blocks) where
  preallocated := rfl
  monitorStart := rfl
  monitorMax := rfl
  variety := rfl
  reserved := hpos
  room := lt_min hpre hsmall
  small := min_le_right _ _
  areas := hareas

/-- The table of drives: three layouts leave a gap. -/
theorem documentedLayoutInfo_areas {d : DriveType} {l : LayoutInfo}
    (h : documentedLayoutInfo d = some l) : l.Tiles ∨ ∃ n, l.Gap n := by
  cases d with
  | TU56 =>
    cases h
    exact Or.inr ⟨1, by unfold LayoutInfo.Gap; decide⟩
  | RK035 =>
    cases h
    exact Or.inr ⟨2, by unfold LayoutInfo.Gap; decide⟩
  | RP023 =>
    cases h
    refine Or.inr ⟨175, by decide, by decide, by decide, by decide, by decide, ?_⟩
    rw [mem_blockRow]
    rintro ⟨i, hi : i < 170, heq : (3 + i) % 2 ^ 16 = 175⟩
    omega
  | RL01 | RL02 | RK067 | RM =>
    cases h
    exact Or.inl ⟨rfl, rfl, Or.inl rfl, Or.inr ⟨rfl, rfl, rfl⟩, by decide⟩
  | TU58 | RP0456 | RS | RX01 | RX02 =>
    cases h
    exact Or.inl ⟨rfl, rfl, Or.inr rfl, Or.inl ⟨rfl, rfl, rfl⟩, by decide⟩
  | _ => cases h

/-- Bounds that all drives share -/
theorem documentedLayoutInfo_bounds {d : DriveType} {l : LayoutInfo}
    (h : documentedLayoutInfo d = some l) :
    l.bootBlockNr = 0 ∧ (l.mfd2 = none ∨ 0 < l.mfd2.getD 0) ∧ l.ufdBlocksNum < 256 ∧
      4 ≤ l.preallocBlocksNum ∧ l.preallocBlocksNum < 256 ∧
        256 * blockSize ≤ l.blocksNum * blockSize % 2 ^ 32 := by
  cases d <;> cases h <;> decide

/-- Areas that have been calculated anew have no gap, but the monitor may begin too late, or the
UFD be so large that block numbers wrap around. -/
theorem recalcLayoutInfo_known {l : LayoutInfo} (blocks : ℕ) (hboot : l.bootBlockNr = 0)
    (hmfd : l.mfd2 = none ∨ 0 < l.mfd2.getD 0) (hufd : l.ufdBlocksNum < 256)
    (hpos : 4 ≤ l.preallocBlocksNum) (hpre : l.preallocBlocksNum < 256) :
    (recalcLayoutInfo l blocks).Known := by
  -- the areas without 16 bit arithmetic
  obtain ⟨first, hfirst, htwo⟩ : ∃ first, (if 0 < l.mfd2.getD 0 then 3 else 2) = first ∧
      (first = 2 ∨ first = 3) := by
    refine ⟨_, rfl, ?_⟩
    split
    · exact Or.inr rfl
    · exact Or.inl rfl
  obtain ⟨ufds, hufds⟩ : ∃ ufds, max l.ufdBlocksNum (blocks / 280) = ufds := ⟨_, rfl⟩
  obtain ⟨maps, hmaps⟩ : ∃ maps, neededBlocks blocksPerMap blocks = maps := ⟨_, rfl⟩
  have hbitmap : (recalcLayoutInfo l blocks).bitmapBlock1 = (first + ufds) % 2 ^ 16 := by
    rw [← hfirst, ← hufds]
    rfl
  have hmonitor : (recalcLayoutInfo l blocks).monitorCoreImageStartBlockNr =
      ((first + ufds) % 2 ^ 16 + maps) % 2 ^ 16 := by
    rw [← hfirst, ← hufds, ← hmaps]
    rfl
  have hufd1 : (recalcLayoutInfo l blocks).ufdBlock1 = first := hfirst
  have hufdsNum : (recalcLayoutInfo l blocks).ufdBlocksNum = ufds := hufds
  have hmapsNum : (recalcLayoutInfo l blocks).bitmapBlockCount = maps := hmaps
  have hprealloc : (recalcLayoutInfo l blocks).preallocBlocksNum = l.preallocBlocksNum := rfl
  unfold neededBlocks blocksPerMap at hmaps
  by_cases hlate : l.preallocBlocksNum <
      (recalcLayoutInfo l blocks).monitorCoreImageStartBlockNr
  · refine Or.inr (Or.inr (Or.inr ⟨hlate, ?_⟩))
    rw [hmonitor]
    exact Nat.mod_lt _ (by decide)
  rw [hmonitor] at hlate
  by_cases hwrap : first + ufds + maps < 2 ^ 16
  · have hsum : (first + ufds) % 2 ^ 16 = first + ufds := Nat.mod_eq_of_lt (by omega)
    have hend : (first + ufds + maps) % 2 ^ 16 = first + ufds + maps := Nat.mod_eq_of_lt hwrap
    rw [hsum] at hbitmap hmonitor hlate
    rw [hend] at hmonitor hlate
    refine Or.inl ⟨hboot, rfl, ?_, Or.inl ⟨?_, ?_, ?_⟩, ?_⟩
    · show (if 0 < l.mfd2.getD 0 then some 2 else l.mfd2) = none ∨
        (if 0 < l.mfd2.getD 0 then some 2 else l.mfd2) = some 2
      rcases hmfd with hnone | hpos
      · rw [hnone]
        exact Or.inl rfl
      · rw [if_pos hpos]
        exact Or.inr rfl
    · show (if 0 < l.mfd2.getD 0 then 3 else 2) =
        1 + if (if 0 < l.mfd2.getD 0 then some 2 else l.mfd2).isSome then 2 else 1
      rcases hmfd with hnone | hpos
      · rw [hnone]
        rfl
      · rw [if_pos hpos, if_pos hpos]
        rfl
    · rw [hbitmap, hufd1, hufdsNum]
    · rw [hmonitor, hbitmap, hmapsNum]
    · rw [hmonitor]
      exact not_lt.mp hlate
  · -- the last preallocated block
    refine Or.inr (Or.inr (Or.inl ⟨l.preallocBlocksNum - 1, ?_, ?_⟩))
    · rw [mem_blockRow, hufd1, hufdsNum]
      clear hbitmap hmonitor hufd1 hufdsNum hmapsNum hlate hmfd hboot
      exact ⟨l.preallocBlocksNum - 1 - first, by omega, by omega⟩
    · rw [hprealloc, hmonitor]
      by_cases hmon : ((first + ufds) % 2 ^ 16 + maps) % 2 ^ 16 = l.preallocBlocksNum
      · left
        rw [mem_blockRow, hbitmap, hmapsNum]
        clear hbitmap hmonitor hufd1 hufdsNum hmapsNum hlate hmfd hboot
        exact ⟨maps - 1, by omega, by omega⟩
      · right
        omega

theorem mounted_new {d : DriveType} {blocks : ℕ} {s : Fs} (h : Fs.new d blocks = .ok s) :
    Mounted s := by
  unfold Fs.new at h
  split at h
  · cases h
  next l hl =>
  obtain ⟨hboot, hmfd, hufd, hpos, hpre, hnum⟩ := documentedLayoutInfo_bounds hl
  split at h
  · cases h
  next hsize =>
  obtain rfl := Except.ok.inj h
  have hroom : l.preallocBlocksNum < blocks := by
    unfold blockSize at hnum hsize
    omega
  have hpos' : 0 < l.preallocBlocksNum := by omega
  have hsmall : l.preallocBlocksNum < 2 ^ 16 := by omega
  split
  · exact mounted_init hpos' hroom hsmall (recalcLayoutInfo_known blocks hboot hmfd hufd hpos hpre)
  · refine mounted_init hpos' hroom hsmall ?_
    rcases documentedLayoutInfo_areas hl with htiles | hgap
    · exact Or.inl htiles
    · exact Or.inr (Or.inl hgap)

/-! ## The layout of the files there are -/

/-- Where the files end -/
def Fs.endOfFiles (s : Fs) : ℕ := s.preallocatedBlockcount + s.ufdExtension + s.dataBlocks

theorem areas_arranged (s : Fs) :
    s.arranged.areas =
      [[s.layoutInfo.bootBlockNr], List.range' s.monitorStartBlockNr s.monitorMaxBlockCount,
        s.mfdNrs, s.bitmapNrs, s.ufdNrs] ++
          (userFilesOf (place s.firstFileBlock s.tree.files)).map (·.blockNrList) := by
  show [[s.layoutInfo.bootBlockNr], List.range' s.monitorStartBlockNr s.monitorMaxBlockCount,
    (emptyBlocks s.mfdNrs).map (·.startBlockNr), (emptyBlocks s.bitmapNrs).map (·.startBlockNr),
    (emptyBlocks s.ufdNrs).map (·.startBlockNr)] ++ _ = _
  rw [emptyBlocks_startBlockNr, emptyBlocks_startBlockNr, emptyBlocks_startBlockNr]
  rfl

theorem fileNrs_arranged (s : Fs) :
    s.arranged.fileNrs.flatten = blockRow s.firstFileBlock s.dataBlocks :=
  flatten_place s.firstFileBlock s.tree.files

theorem flatten_areas_arranged (s : Fs) :
    s.arranged.areas.flatten =
      s.layoutInfo.bootBlockNr ::
        (List.range' s.monitorStartBlockNr s.monitorMaxBlockCount ++
          (s.mfdNrs ++ (s.bitmapNrs ++ (s.ufdNrs ++ blockRow s.firstFileBlock s.dataBlocks)))) := by
  rw [areas_arranged, List.flatten_append, ← fileNrs_arranged]
  simp only [List.flatten_cons, List.flatten_nil, List.append_nil, List.append_assoc,
    List.cons_append, List.nil_append]
  rfl

/-- The rows of UFD blocks in free space and of file blocks, which do not wrap around. -/
theorem rows_behind {s : Fs} (hend : s.endOfFiles ≤ 2 ^ 16) :
    blockRow s.preallocatedBlockcount s.ufdExtension =
        List.range' s.preallocatedBlockcount s.ufdExtension ∧
      blockRow s.firstFileBlock s.dataBlocks =
        List.range' (s.preallocatedBlockcount + s.ufdExtension) s.dataBlocks := by
  unfold Fs.endOfFiles at hend
  refine ⟨blockRow_eq_range' (by omega), ?_⟩
  by_cases hdata : s.dataBlocks = 0
  · rw [hdata]
    rfl
  · have hfirst : s.firstFileBlock = s.preallocatedBlockcount + s.ufdExtension := by
      unfold Fs.firstFileBlock
      omega
    rw [hfirst, blockRow_eq_range' (by omega)]

/-- With areas that fill the preallocated blocks, the objects have all blocks up to the end. -/
theorem areas_perm {s : Fs} (hs : Mounted s) (htiles : s.layoutInfo.Tiles)
    (hend : s.endOfFiles ≤ 2 ^ 16) :
    s.arranged.areas.flatten.Perm (List.range s.endOfFiles) := by
  obtain ⟨hext, hfiles⟩ := rows_behind hend
  have hpre := hs.preallocated
  have hstart := hs.monitorStart
  have hmax := hs.monitorMax
  have hle := htiles.monitor
  have hsmall : s.preallocatedBlockcount < 2 ^ 16 := lt_of_lt_of_le hs.room hs.small
  have hcount : s.monitorMaxBlockCount =
      s.layoutInfo.preallocBlocksNum - s.layoutInfo.monitorCoreImageStartBlockNr := by omega
  have hmfd : s.mfdNrs = List.range' 1 s.layoutInfo.mfdCount := by
    rw [Fs.mfdNrs, hs.variety, LayoutInfo.mfdVariety, LayoutInfo.mfdCount]
    rcases htiles.mfd2 with hnone | hsome
    · rw [hnone]
      show [s.layoutInfo.mfd1] = [1]
      rw [htiles.mfd1]
    · rw [hsome]
      show [s.layoutInfo.mfd1, s.layoutInfo.mfd2.getD (2 ^ 16 - 1)] = [1, 2]
      rw [htiles.mfd1, hsome]
      rfl
  have hrange : List.range s.endOfFiles =
      0 :: (List.range' 1 (s.preallocatedBlockcount - 1) ++
        (List.range' s.preallocatedBlockcount s.ufdExtension ++
          List.range' (s.preallocatedBlockcount + s.ufdExtension) s.dataBlocks)) := by
    have hpos : s.endOfFiles = 1 + ((s.preallocatedBlockcount - 1) +
        (s.ufdExtension + s.dataBlocks)) := by
      have hmfds := htiles.tables
      unfold Fs.endOfFiles
      omega
    have hsplit (start m n : ℕ) : List.range' start (m + n) =
        List.range' start m ++ List.range' (start + m) n := List.range'_append_1.symm
    have hbehind : 1 + (s.preallocatedBlockcount - 1) = s.preallocatedBlockcount := by
      have hmfds := htiles.tables
      omega
    rw [List.range_eq_range', hpos, hsplit, hsplit, hsplit, Nat.zero_add, hbehind]
    rfl
  rw [flatten_areas_arranged, htiles.boot, hmfd, Fs.bitmapNrs, Fs.ufdNrs, hext, hfiles, hcount,
    hstart, hrange, List.append_assoc]
  refine List.Perm.cons 0 ?_
  rcases htiles.tables with ⟨hufd, hbitmap, hmonitor⟩ | ⟨hbitmap, hufd, hmonitor⟩
  · have hrows : List.range' 1 (s.preallocatedBlockcount - 1) =
        List.range' 1 s.layoutInfo.mfdCount ++
          (blockRow s.layoutInfo.ufdBlock1 s.layoutInfo.ufdBlocksNum ++
            (blockRow s.layoutInfo.bitmapBlock1 s.layoutInfo.bitmapBlockCount ++
              List.range' s.layoutInfo.monitorCoreImageStartBlockNr
                (s.layoutInfo.preallocBlocksNum -
                  s.layoutInfo.monitorCoreImageStartBlockNr))) := by
      rw [blockRow_eq_range' (by omega), blockRow_eq_range' (by omega), hmonitor,
        List.range'_append_1, hbitmap, List.range'_append_1, hufd, List.range'_append_1]
      congr 1
      omega
    rw [hrows]
    refine List.perm_iff_count.mpr fun n => ?_
    simp only [List.count_append]
    omega
  · have hrows : List.range' 1 (s.preallocatedBlockcount - 1) =
        List.range' 1 s.layoutInfo.mfdCount ++
          (blockRow s.layoutInfo.bitmapBlock1 s.layoutInfo.bitmapBlockCount ++
            (blockRow s.layoutInfo.ufdBlock1 s.layoutInfo.ufdBlocksNum ++
              List.range' s.layoutInfo.monitorCoreImageStartBlockNr
                (s.layoutInfo.preallocBlocksNum -
                  s.layoutInfo.monitorCoreImageStartBlockNr))) := by
      rw [blockRow_eq_range' (by omega), blockRow_eq_range' (by omega), hmonitor,
        List.range'_append_1, hufd, List.range'_append_1, hbitmap, List.range'_append_1]
      congr 1
      omega
    rw [hrows]
    refine List.perm_iff_count.mpr fun n => ?_
    simp only [List.count_append]
    omega

theorem mem_areas_arranged {s : Fs} {n : ℕ} :
    (∃ a ∈ s.arranged.areas, n ∈ a) ↔
      n = s.layoutInfo.bootBlockNr ∨
        n ∈ List.range' s.monitorStartBlockNr s.monitorMaxBlockCount ∨ n ∈ s.mfdNrs ∨
          n ∈ s.bitmapNrs ∨ n ∈ s.ufdNrs ∨ n ∈ blockRow s.firstFileBlock s.dataBlocks := by
  rw [← List.mem_flatten, flatten_areas_arranged]
  simp only [List.mem_cons, List.mem_append]

theorem bitmapUsed_arranged {s : Fs} {n : ℕ} :
    s.arranged.bitmapUsed n = true ↔
      n < s.preallocatedBlockcount ∨ n ∈ s.bitmapNrs ∨ n ∈ s.mfdNrs ∨ n ∈ s.ufdNrs ∨
        n ∈ blockRow s.firstFileBlock s.dataBlocks := by
  show (decide (n < s.preallocatedBlockcount) || decide (n ∈ s.bitmapNrs ++ s.mfdNrs ++ s.ufdNrs ++
    s.arranged.fileNrs.flatten)) = true ↔ _
  rw [fileNrs_arranged]
  simp only [Bool.or_eq_true, decide_eq_true_eq, List.mem_append, or_assoc]

/-- A gap is marked as used, but no object has it. -/
theorem not_arranged_of_gap {s : Fs} (hs : Mounted s) (hend : s.endOfFiles ≤ 2 ^ 16) {n : ℕ}
    (hgap : s.layoutInfo.Gap n) : ¬s.arranged.Arranged := by
  intro harr
  obtain ⟨hlt, hboot, hmon, hmfd, hbitmap, hufd⟩ := hgap
  obtain ⟨hext, hfiles⟩ := rows_behind hend
  have hpre := hs.preallocated
  have hstart := hs.monitorStart
  have hused := bitmapUsed_arranged.mpr (Or.inl (show n < s.preallocatedBlockcount by omega))
  rcases mem_areas_arranged.mp ((harr.used n).mp hused) with h | h | h | h | h | h
  · exact hboot h
  · rw [List.mem_range'_1] at h
    omega
  · rw [Fs.mfdNrs, hs.variety] at h
    exact hmfd h
  · exact hbitmap h
  · rw [Fs.ufdNrs, hext, List.mem_append, List.mem_range'_1] at h
    rcases h with h | h
    · exact hufd h
    · omega
  · rw [hfiles, List.mem_range'_1] at h
    omega

/-- A monitor that begins behind the preallocated blocks goes on beyond the volume. -/
theorem not_arranged_of_late {s : Fs} (hs : Mounted s)
    (hlate : s.layoutInfo.preallocBlocksNum < s.layoutInfo.monitorCoreImageStartBlockNr)
    (hsmall : s.layoutInfo.monitorCoreImageStartBlockNr < 2 ^ 16) : ¬s.arranged.Arranged := by
  intro harr
  have hmax := hs.monitorMax
  have hstart := hs.monitorStart
  have hblocks := hs.small
  -- the last block of the monitor
  have hlast : s.monitorStartBlockNr + s.monitorMaxBlockCount - 1 ∈
      List.range' s.monitorStartBlockNr s.monitorMaxBlockCount := by
    rw [List.mem_range'_1]
    omega
  have hin := harr.inside (List.range' s.monitorStartBlockNr s.monitorMaxBlockCount)
    (by rw [areas_arranged]; simp) _ hlast
  have hin : s.monitorStartBlockNr + s.monitorMaxBlockCount - 1 < s.blockcount := hin
  have hpre := hs.preallocated
  have hpos := hs.reserved
  omega

/-- A block of the UFD belongs to another area as well. -/
theorem not_arranged_of_overlap {s : Fs} (hs : Mounted s) {n : ℕ} (hover : s.layoutInfo.Overlap n) :
    ¬s.arranged.Arranged := by
  intro harr
  obtain ⟨hufd, hother⟩ := hover
  have hpre := hs.preallocated
  have hstart := hs.monitorStart
  have hmax := hs.monitorMax
  have hsmall := hs.room.trans_le hs.small
  have hdisjoint := harr.disjoint
  rw [areas_arranged] at hdisjoint
  simp only [List.cons_append, List.pairwise_cons] at hdisjoint
  obtain ⟨-, hmonitor, -, hbitmap, -⟩ := hdisjoint
  have hmem : n ∈ s.ufdNrs := List.mem_append_left _ hufd
  rcases hother with hmap | hmon
  · exact hbitmap s.ufdNrs (by simp) hmap hmem
  · refine hmonitor s.ufdNrs (by simp) ?_ hmem
    rw [List.mem_range'_1]
    omega

theorem length_ufdBlockList_arranged (s : Fs) :
    s.arranged.ufdBlockList.length = s.layoutInfo.ufdBlocksNum + s.ufdExtension := by
  have hlen := congrArg List.length (emptyBlocks_startBlockNr s.ufdNrs)
  rw [List.length_map] at hlen
  show (emptyBlocks s.ufdNrs).length = _
  rw [hlen, Fs.ufdNrs, List.length_append, length_blockRow, length_blockRow]

/-- The layout is right if the areas of the drive fill its preallocated blocks, and the UFD has an
entry for every file. -/
theorem arranged_iff {s : Fs} (hs : Mounted s) (hend : s.endOfFiles ≤ s.blockcount)
    (hdata : ∀ f ∈ s.userFiles, f.fileSize ≤ blockDatasize * f.dataBlocks) :
    s.arranged.Arranged ↔
      s.layoutInfo.Tiles ∧ s.userFiles.length ≤
        ufdEntriesPerBlock * (s.layoutInfo.ufdBlocksNum + s.ufdExtension) := by
  have hend16 : s.endOfFiles ≤ 2 ^ 16 := hend.trans hs.small
  constructor
  · intro harr
    constructor
    · rcases hs.areas with htiles | ⟨n, hgap⟩ | ⟨n, hover⟩ | ⟨hlate, hsmall⟩
      · exact htiles
      · exact absurd harr (not_arranged_of_gap hs hend16 hgap)
      · exact absurd harr (not_arranged_of_overlap hs hover)
      · exact absurd harr (not_arranged_of_late hs hlate hsmall)
    · have hroom := harr.ufdRoom
      rw [length_ufdBlockList_arranged] at hroom
      exact (length_userFilesOf_place s.firstFileBlock s.tree.files).symm.trans_le hroom
  · rintro ⟨htiles, hroom⟩
    have hperm := areas_perm hs htiles hend16
    have hnodup := List.nodup_flatten.mp (hperm.symm.nodup List.nodup_range)
    have hmem {n : ℕ} : (∃ a ∈ s.arranged.areas, n ∈ a) ↔ n < s.endOfFiles := by
      rw [← List.mem_flatten, hperm.mem_iff, List.mem_range]
    refine ⟨hnodup.2, hnodup.1, ?_, ?_, ?_, ?_⟩
    · intro a ha n hn
      exact (hmem.mp ⟨a, ha, hn⟩).trans_le hend
    · rw [length_ufdBlockList_arranged]
      exact (length_userFilesOf_place s.firstFileBlock s.tree.files).trans_le hroom
    · intro f hf
      obtain ⟨nr, g, hg, rfl⟩ := mem_userFilesOf_place hf
      show g.fileSize ≤ blockDatasize * (blockRow nr g.dataBlocks).length
      rw [length_blockRow]
      exact hdata g hg
    · intro n
      rw [bitmapUsed_arranged, mem_areas_arranged]
      have hpre := hs.preallocated
      have hstart := hs.monitorStart
      have hmax := hs.monitorMax
      have hle := htiles.monitor
      have hroom := hs.room
      have hsmall := hs.small
      constructor
      · rintro (hlt | h | h | h | h)
        · -- a preallocated block lies in an area
          rw [← mem_areas_arranged, hmem]
          unfold Fs.endOfFiles
          omega
        · exact Or.inr (Or.inr (Or.inr (Or.inl h)))
        · exact Or.inr (Or.inr (Or.inl h))
        · exact Or.inr (Or.inr (Or.inr (Or.inr (Or.inl h))))
        · exact Or.inr (Or.inr (Or.inr (Or.inr (Or.inr h))))
      · rintro (h | h | h | h | h | h)
        · have hboot := htiles.boot
          have htables := htiles.tables
          exact Or.inl (by omega)
        · rw [List.mem_range'_1] at h
          exact Or.inl (by omega)
        · exact Or.inr (Or.inr (Or.inl h))
        · exact Or.inr (Or.inl h)
        · exact Or.inr (Or.inr (Or.inr (Or.inl h)))
        · exact Or.inr (Or.inr (Or.inr (Or.inr h)))

/-! ## Files that have been imported -/

namespace Fs

/-- The blocks behind the preallocated ones -/
def freeBlocks (s : Fs) : ℕ := s.blockcount - s.preallocatedBlockcount

end Fs

/-- A file system with the areas of `s₀`, whose files have been imported: none of them is empty,
and their blocks, with the UFD blocks for all files, are there. -/
structure Accepted (s₀ s : Fs) : Prop where
  layout : s = { s₀ with tree := s.tree }
  sizes : ∀ f ∈ s.userFiles, 0 < f.fileSize
  demand : s.neededDataBlocks 0 +
    (neededBlocks ufdEntriesPerBlock s.files.length - s.layoutInfo.ufdBlocksNum) ≤ s.freeBlocks

theorem layoutTest_eq_ok_iff {s : Fs} (hroom : s.preallocatedBlockcount < s.blockcount)
    {size : ℕ} :
    layoutTest size s = .ok () ↔ s.neededDataBlocks size + s.excessUfdBlocks ≤ s.freeBlocks := by
  unfold layoutTest Fs.freeBlocks
  rw [if_neg (by omega)]
  split
  · next h =>
    constructor
    · intro h
      cases h
    · intro hle
      omega
  · next h => exact ⟨fun _ => by omega, fun _ => rfl⟩

theorem importHostFile_eq_ok {h : HostFile} {s u : Fs} (hok : importHostFile h s = .ok () u) :
    u = s ∨ 0 < h.fileSize ∧
      layoutTest (if isInternal (decName h.filename) then 0 else h.fileSize) s = .ok () ∧
        u = { s with
          tree := s.tree.addFile (decPath h.filename)
            (newFile h (isInternal (decName h.filename))) } := by
  unfold importHostFile at hok
  dsimp only at hok
  split at hok
  · cases hok
    exact Or.inl rfl
  split at hok
  · cases hok
    exact Or.inl rfl
  split at hok
  · cases hok
    exact Or.inl rfl
  next hzero =>
  split at hok
  · cases hok
  split at hok
  · cases hok
    exact Or.inl rfl
  split at hok
  · cases hok
  · cases hok
  · next htest =>
    cases hok
    exact Or.inr ⟨by omega, htest, rfl⟩

theorem userFiles_addFile (s : Fs) (path : Text) (f : File) :
    ({ s with tree := s.tree.addFile path f } : Fs).userFiles =
      s.userFiles ++ if f.internal then [] else [f] := by
  show userFilesOf (s.tree.files ++ [⟨s.tree.next, path, f⟩]) = userFilesOf s.tree.files ++ _
  rw [userFilesOf, List.map_append, List.filter_append, ← userFilesOf]
  congr 1
  rw [List.map_singleton, List.filter_singleton]
  cases f.internal <;> rfl

theorem neededBlocks_mono (size : ℕ) {m n : ℕ} (h : m ≤ n) :
    neededBlocks size m ≤ neededBlocks size n :=
  Nat.div_le_div_right (by omega)

theorem Accepted.addFile {s₀ s : Fs} (hs : Accepted s₀ s) (path : Text) {f : File}
    (hsize : 0 < f.fileSize)
    (hdemand : s.neededDataBlocks (if f.internal then 0 else f.fileSize) + s.excessUfdBlocks ≤
      s.freeBlocks) : Accepted s₀ { s with tree := s.tree.addFile path f } where
  layout := by rw [hs.layout]
  sizes g hg := by
    rw [userFiles_addFile, List.mem_append] at hg
    rcases hg with hold | hnew
    · exact hs.sizes g hold
    · cases hint : f.internal with
      | true => simp [hint] at hnew
      | false =>
        rw [hint, if_neg Bool.false_ne_true, List.mem_singleton] at hnew
        rwa [hnew]
  demand := by
    have hlen : ({ s with tree := s.tree.addFile path f } : Fs).files.length =
        s.files.length + 1 := by
      simp [Fs.files, FileTree.addFile]
    have hneeded : ({ s with tree := s.tree.addFile path f } : Fs).neededDataBlocks 0 =
        s.neededDataBlocks (if f.internal then 0 else f.fileSize) := by
      unfold Fs.neededDataBlocks
      rw [userFiles_addFile]
      cases f.internal with
      | true => simp
      | false => simp [show neededBlocks blockDatasize 0 = 0 from rfl]
    rw [hlen, hneeded]
    exact hdemand

theorem Accepted.of_deleteHostFile {s₀ s : Fs} (hs : Accepted s₀ s) (path : Text) :
    Accepted s₀ (deleteHostFile path s) := by
  have hkeep : deleteHostFile path s = s ∨
      ∃ n, deleteHostFile path s = { s with tree := s.tree.removeFile n } := by
    unfold deleteHostFile
    split
    · exact Or.inl rfl
    split
    · exact Or.inl rfl
    split
    · exact Or.inl rfl
    · next n _ _ => exact Or.inr ⟨n, rfl⟩
  rcases hkeep with heq | ⟨n, heq⟩
  · rwa [heq]
  · rw [heq]
    have hfiles : (({ s with tree := s.tree.removeFile n } : Fs).files).Sublist s.files :=
      List.filter_sublist.map _
    have husers := hfiles.filter (!·.internal)
    refine ⟨by rw [hs.layout], fun g hg => hs.sizes g (husers.subset hg), ?_⟩
    have hneeded := (husers.map fun f => neededBlocks blockDatasize f.fileSize).sum_le_sum
      (fun _ _ => Nat.zero_le _)
    have hentries := neededBlocks_mono ufdEntriesPerBlock hfiles.length_le
    have hdemand := hs.demand
    unfold Fs.neededDataBlocks at hdemand ⊢
    show ((List.filter (fun x => !x.internal)
      ({ s with tree := s.tree.removeFile n } : Fs).files).map _).sum + _ + (_ - _) ≤ _
    show _ ≤ s.freeBlocks
    unfold Fs.userFiles at hdemand
    dsimp only at hneeded hdemand ⊢
    omega

theorem Accepted.of_consumeEvent {s₀ s t : Fs} (hmount : Mounted s₀) (e : HostEvent)
    (hs : Accepted s₀ s) (ht : consumeEvent s e = .ok () t) : Accepted s₀ t := by
  have himport (h : HostFile) (s : Fs) (hs : Accepted s₀ s) (hok : importHostFile h s = .ok () t) :
      Accepted s₀ t := by
    rcases importHostFile_eq_ok hok with rfl | ⟨hsize, htest, rfl⟩
    · exact hs
    · have hroom : s.preallocatedBlockcount < s.blockcount := by
        rw [hs.layout]
        exact hmount.room
      exact hs.addFile _ hsize ((layoutTest_eq_ok_iff hroom).mp htest)
  cases e with
  | create file => exact himport file s hs ht
  | modify file => exact himport file _ (hs.of_deleteHostFile _) ht
  | delete path =>
    cases ht
    exact hs.of_deleteHostFile path

theorem accepted_of_reached {d : DriveType} {blocks : ℕ} {s₀ s : Fs}
    (hnew : Fs.new d blocks = .ok s₀)
    (hs : Reached consumeEvent s₀ s) : Mounted s ∧ Accepted s₀ s := by
  have hmount := mounted_new hnew
  have hempty : s₀.tree = .empty := by
    unfold Fs.new at hnew
    split at hnew
    · cases hnew
    split at hnew
    · cases hnew
    · obtain rfl := Except.ok.inj hnew
      rfl
  have hstart : Accepted s₀ s₀ := by
    refine ⟨rfl, ?_, ?_⟩
    · simp [Fs.userFiles, Fs.files, hempty, FileTree.empty]
    · have hfiles : s₀.files = [] := by rw [Fs.files, hempty]; rfl
      rw [Fs.neededDataBlocks, Fs.userFiles, hfiles]
      show 0 + (0 - _) ≤ _
      omega
  have hacc : Accepted s₀ s :=
    hs.invariant (fun _ e _ hI hstep => hI.of_consumeEvent hmount e hstep) hstart
  refine ⟨?_, hacc⟩
  rw [hacc.layout]
  exact hmount.withTree s.tree

theorem le_mul_neededBlocks {size : ℕ} (hsize : 0 < size) (n : ℕ) :
    n ≤ size * neededBlocks size n := by
  have hdiv := Nat.lt_mul_div_succ (n + size - 1) hsize
  rw [Nat.mul_add, Nat.mul_one] at hdiv
  unfold neededBlocks
  omega

/-- Files that fit on the volume have few enough blocks to be counted in 16 bit. -/
theorem Accepted.dataBlocks_eq {s₀ s : Fs} (hs : Accepted s₀ s) (hsmall : s.blockcount ≤ 2 ^ 16)
    (hpos : 0 < s.preallocatedBlockcount) :
    (∀ f ∈ s.userFiles, f.dataBlocks = neededBlocks blockDatasize f.fileSize) ∧
      s.dataBlocks = s.neededDataBlocks 0 := by
  have hdemand := hs.demand
  have hsum : (s.userFiles.map fun f => neededBlocks blockDatasize f.fileSize).sum < 2 ^ 16 := by
    unfold Fs.neededDataBlocks Fs.freeBlocks at hdemand
    omega
  have heach : ∀ f ∈ s.userFiles, f.dataBlocks = neededBlocks blockDatasize f.fileSize := by
    intro f hf
    have hle := List.single_le_sum (fun _ _ => Nat.zero_le _) _
      (List.mem_map_of_mem (f := fun f : File => neededBlocks blockDatasize f.fileSize) hf)
    exact Nat.mod_eq_of_lt (hle.trans_lt hsum)
  refine ⟨heach, ?_⟩
  rw [Fs.dataBlocks, dataBlocksOf, List.map_congr_left heach, Fs.neededDataBlocks,
    show neededBlocks blockDatasize 0 = 0 from rfl, Nat.add_zero]

/-- The blocks that the layout gives to files end inside the volume. -/
theorem Accepted.endOfFiles_le {s₀ s : Fs} (hs : Accepted s₀ s) (hmount : Mounted s) :
    s.endOfFiles ≤ s.blockcount := by
  have hdemand := hs.demand
  have hroom := hmount.room
  have hext := neededBlocks_mono ufdEntriesPerBlock (Nat.sub_le s.files.length 2)
  rw [Fs.endOfFiles, (hs.dataBlocks_eq hmount.small hmount.reserved).2]
  unfold Fs.ufdExtension
  unfold Fs.freeBlocks at hdemand
  omega

namespace Fs

/-- There is a layout, in numbers: boot block and monitor count as files, no file is too long, and
a block remains free. Of 65536 blocks, none has to. -/
def Placeable (s : Fs) : Prop :=
  2 ≤ s.files.length ∧ (∀ f ∈ s.userFiles, f.Linkable) ∧
    (s.blockcount = 2 ^ 16 ∨ s.endOfFiles < s.blockcount)

end Fs

theorem fits_iff {s : Fs} (hsmall : s.blockcount ≤ 2 ^ 16)
    (hfirst : s.preallocatedBlockcount + s.ufdExtension ≤ s.blockcount) :
    s.Fits ↔ s.Placeable := by
  have hbehind : s.endOfFiles = s.preallocatedBlockcount + s.ufdExtension + s.dataBlocks := rfl
  constructor
  · intro h
    refine ⟨h.files, h.linkable, ?_⟩
    by_contra hfull
    obtain ⟨hne, hle⟩ := not_or.mp hfull
    have hnr : s.firstFileBlock = s.preallocatedBlockcount + s.ufdExtension := by
      unfold Fs.firstFileBlock
      omega
    -- one of the blocks is the first one behind the volume
    have hin := h.inside (s.blockcount - s.firstFileBlock) (by omega)
    omega
  · rintro ⟨hfiles, hlink, hroom⟩
    refine ⟨hfiles, hlink, fun i hi => ?_⟩
    rcases hroom with hfull | hlt
    · rw [hfull]
      exact Nat.mod_lt _ (Nat.two_pow_pos 16)
    · have hnr : s.firstFileBlock = s.preallocatedBlockcount + s.ufdExtension := by
        unfold Fs.firstFileBlock
        omega
      omega

/-! ## The test for a new file -/

namespace Fs

def withFile (s : Fs) (path : Text) (f : File) : Fs :=
  { s with tree := s.tree.addFile path f }

/-- Boot block and monitor, as far as they are not files -/
def missing (s : Fs) : ℕ := 2 - (s.files.filter (·.internal)).length

/-- The UFD has an entry for every file. It is laid out for two files fewer than there are: too
few if one of them is neither boot block nor monitor and would begin a new block. -/
def UfdRoom (s : Fs) : Prop :=
  s.userFiles.length ≤ ufdEntriesPerBlock * s.layoutInfo.ufdBlocksNum ∨
    s.userFiles.length % ufdEntriesPerBlock = 0 ∨
      s.missing < s.userFiles.length % ufdEntriesPerBlock

end Fs

theorem ufdRoom_iff (s : Fs) :
    s.userFiles.length ≤ ufdEntriesPerBlock * (s.layoutInfo.ufdBlocksNum + s.ufdExtension) ↔
      s.UfdRoom := by
  have hlen : s.files.length = s.userFiles.length + (s.files.filter (·.internal)).length := by
    have hsplit := (List.length_eq_length_filter_add (l := s.files) (·.internal))
    rw [hsplit, Fs.userFiles, Nat.add_comm]
  unfold Fs.UfdRoom Fs.missing Fs.ufdExtension neededBlocks ufdEntriesPerBlock
  omega

/-- When the layout is right, and the test for a new file agrees with it. -/
structure LayoutHolds (s : Fs) (path : Text) (f : File) : Prop where
  arranged : s.Placeable → s.layoutInfo.Tiles ∧ s.UfdRoom
  /-- what the test accepts is not the first file, comes to files that are not too long, and
  leaves a block free -/
  accepted : s.neededDataBlocks f.fileSize + s.excessUfdBlocks ≤ s.freeBlocks →
    s.files ≠ [] ∧ (∀ g ∈ f :: s.userFiles, g.Linkable) ∧
      (s.blockcount = 2 ^ 16 ∨ (s.withFile path f).endOfFiles ≠ s.blockcount)
  /-- what the test rejects does not fit, even if block numbers wrap around -/
  rejected : s.freeBlocks < s.neededDataBlocks f.fileSize + s.excessUfdBlocks →
    s.files = [] ∨ (∃ g ∈ f :: s.userFiles, ¬g.Linkable) ∨
      s.blockcount < 2 ^ 16 ∧ s.blockcount ≤ (s.withFile path f).endOfFiles

theorem placeable_withFile {s : Fs} (path : Text) {f : File} (huser : f.internal = false) :
    (s.withFile path f).Placeable ↔
      s.files ≠ [] ∧ (∀ g ∈ f :: s.userFiles, g.Linkable) ∧
        (s.blockcount = 2 ^ 16 ∨ (s.withFile path f).endOfFiles < s.blockcount) := by
  have husers : (s.withFile path f).userFiles = s.userFiles ++ [f] := by
    rw [Fs.withFile, userFiles_addFile, huser]
    rfl
  have hlen : (s.withFile path f).files.length = s.files.length + 1 := by
    simp [Fs.withFile, Fs.files, FileTree.addFile]
  have hne : 2 ≤ s.files.length + 1 ↔ s.files ≠ [] := by
    rw [← List.length_pos_iff]
    omega
  unfold Fs.Placeable
  rw [husers, hlen, hne]
  refine and_congr_right fun _ => and_congr_left fun _ => ?_
  simp only [List.mem_append, List.mem_cons, List.not_mem_nil, or_false]
  exact forall_congr' fun g => by rw [or_comm]

theorem calcLayout_isOk_iff {s : Fs} (hs : Mounted s)
    (hfirst : s.preallocatedBlockcount + s.ufdExtension ≤ s.blockcount) :
    (∃ t, calcLayout s = .ok t) ↔ s.Placeable := by
  have hvar := hs.mfdVariety
  have hpre : s.preallocatedBlockcount < 2 ^ 16 := hs.room.trans_le hs.small
  rw [← fits_iff hs.small hfirst]
  constructor
  · rintro ⟨t, ht⟩
    exact ((calcLayout_eq_ok_iff hvar hpre).mp ht).1
  · intro h
    exact ⟨_, (calcLayout_eq_ok_iff hvar hpre).mpr ⟨h, rfl⟩⟩

theorem arranged_calcLayout_iff {s₀ s : Fs} (hmount : Mounted s) (hs : Accepted s₀ s) :
    (∀ t, calcLayout s = .ok t → t.Arranged) ↔
      (s.Placeable → s.layoutInfo.Tiles ∧ s.UfdRoom) := by
  have hend := hs.endOfFiles_le hmount
  have hvar := hmount.mfdVariety
  have hpre : s.preallocatedBlockcount < 2 ^ 16 := hmount.room.trans_le hmount.small
  have hdata : ∀ f ∈ s.userFiles, f.fileSize ≤ blockDatasize * f.dataBlocks := by
    intro f hf
    rw [(hs.dataBlocks_eq hmount.small hmount.reserved).1 f hf]
    exact le_mul_neededBlocks (by decide) _
  rw [← ufdRoom_iff, ← arranged_iff hmount hend hdata,
    ← fits_iff hmount.small (by unfold Fs.endOfFiles at hend; omega)]
  constructor
  · intro h hfits
    exact h _ ((calcLayout_eq_ok_iff hvar hpre).mpr ⟨hfits, rfl⟩)
  · intro h t ht
    obtain ⟨hfits, rfl⟩ := (calcLayout_eq_ok_iff hvar hpre).mp ht
    exact h hfits

theorem layout_iff {d : DriveType} {blocks : ℕ} {s₀ s : Fs} (hnew : Fs.new d blocks = .ok s₀)
    (hs : Reached consumeEvent s₀ s) (path : Text) {f : File}
    (huser : f.internal = false) :
    ((∀ t, calcLayout s = .ok t → t.Arranged) ∧
        (layoutTest f.fileSize s = .ok () ↔ ∃ t, calcLayout (s.withFile path f) = .ok t)) ↔
      LayoutHolds s path f := by
  obtain ⟨hmount, hacc⟩ := accepted_of_reached hnew hs
  have hdemand := hacc.demand
  have hroom := hmount.room
  have hsmall := hmount.small
  have hlen : (s.withFile path f).files.length = s.files.length + 1 := by
    simp [Fs.withFile, Fs.files, FileTree.addFile]
  -- the layout of the new files counts fewer UFD blocks than the test
  have hext : (s.withFile path f).ufdExtension ≤
      neededBlocks ufdEntriesPerBlock s.files.length - s.layoutInfo.ufdBlocksNum := by
    have hmono := neededBlocks_mono ufdEntriesPerBlock
      (show (s.withFile path f).files.length - 2 ≤ s.files.length by omega)
    show _ - s.layoutInfo.ufdBlocksNum ≤ _
    omega
  have hmount' : Mounted (s.withFile path f) := hmount.withTree _
  have hok := calcLayout_isOk_iff hmount' (by
    show s.preallocatedBlockcount + _ ≤ s.blockcount
    unfold Fs.freeBlocks at hdemand
    omega)
  rw [arranged_calcLayout_iff hmount hacc, layoutTest_eq_ok_iff hroom, hok,
    placeable_withFile path huser]
  have hend : (s.withFile path f).endOfFiles = s.preallocatedBlockcount +
      (s.withFile path f).ufdExtension + (s.dataBlocks + f.dataBlocks) := by
    have husers : (s.withFile path f).userFiles = s.userFiles ++ [f] := by
      rw [Fs.withFile, userFiles_addFile, huser]
      rfl
    rw [Fs.endOfFiles, Fs.dataBlocks, husers, dataBlocksOf, List.map_append, List.sum_append]
    rfl
  have hdata := (hacc.dataBlocks_eq hsmall hmount.reserved).2
  have hexcess : neededBlocks ufdEntriesPerBlock s.files.length - s.layoutInfo.ufdBlocksNum ≤
      s.excessUfdBlocks :=
    Nat.sub_le_sub_right (neededBlocks_mono _ (Nat.le_succ _)) _
  constructor
  · rintro ⟨harr, hagree⟩
    refine ⟨harr, ?_, ?_⟩
    · intro hle
      obtain ⟨hne, hlink, hin⟩ := hagree.mp hle
      exact ⟨hne, hlink, hin.imp id ne_of_lt⟩
    · intro hlt
      by_contra hno
      simp only [not_or, not_exists, not_and, not_not, not_le] at hno
      obtain ⟨hne, hlink, hin⟩ := hno
      have hfits := hagree.mpr ⟨hne, hlink, by omega⟩
      omega
  · rintro ⟨harr, haccept, hreject⟩
    refine ⟨harr, ?_, ?_⟩
    · intro hle
      obtain ⟨hne, hlink, hin⟩ := haccept hle
      refine ⟨hne, hlink, hin.imp id fun hne => ?_⟩
      have hmod : f.dataBlocks ≤ neededBlocks blockDatasize f.fileSize := Nat.mod_le _ _
      have htotal : s.neededDataBlocks f.fileSize =
          s.neededDataBlocks 0 + neededBlocks blockDatasize f.fileSize := by
        rw [Fs.neededDataBlocks, Fs.neededDataBlocks,
          show neededBlocks blockDatasize 0 = 0 from rfl, Nat.add_zero]
      unfold Fs.freeBlocks at hle
      omega
    · rintro ⟨hne, hlink, hin⟩
      by_contra hlt
      rcases hreject (not_le.mp hlt) with hempty | ⟨g, hg, hlong⟩ | ⟨hsmaller, hfull⟩
      · exact hne hempty
      · exact hlong (hlink g hg)
      · omega

/-- A host file of one byte -/
def smallFile : HostFile where
  dir := []
  filename := ['A']
  isDir := false
  data := [0]
  modificationTime := nullTime
  readonly := false

/-- A file of a number of blocks -/
def fileOfBlocks (n : ℕ) : File :=
  { newFile smallFile false with fileSize := n * blockDatasize }

/-- An RX01 floppy with one small file: 453 blocks are free. -/
theorem exists_floppy : ∃ s₀ s, Fs.new .RX01 494 = .ok s₀ ∧ Reached consumeEvent s₀ s ∧
    s.files = [newFile smallFile false] ∧ s.layoutInfo.Tiles ∧ s.layoutInfo.ufdBlocksNum = 4 ∧
      s.preallocatedBlockcount = 40 ∧ s.blockcount = 494 :=
  ⟨_, _, rfl, Reached.start.next (.create smallFile) rfl, rfl,
    ⟨rfl, rfl, Or.inr rfl, Or.inl ⟨rfl, rfl, rfl⟩, by decide⟩, rfl, rfl, rfl⟩

theorem layout_floppy : ∃ s₀ s, Fs.new .RX01 494 = .ok s₀ ∧ Reached consumeEvent s₀ s ∧
    (∀ t, calcLayout s = .ok t → t.Arranged) ∧
      (layoutTest (fileOfBlocks 452).fileSize s = .ok () ↔
        ∃ t, calcLayout (s.withFile [] (fileOfBlocks 452)) = .ok t) := by
  obtain ⟨s₀, s, hnew, hs, hfiles, htiles, hufds, hpre, hblocks⟩ := exists_floppy
  refine ⟨s₀, s, hnew, hs, (layout_iff hnew hs [] rfl).mpr ⟨?_, ?_, ?_⟩⟩
  · intro hplace
    have hlen := hplace.1
    rw [hfiles] at hlen
    exact absurd hlen (by decide)
  · intro _
    refine ⟨by simp [hfiles], ?_, Or.inr ?_⟩
    · rw [Fs.userFiles, hfiles]
      decide
    · rw [Fs.endOfFiles, Fs.dataBlocks, Fs.ufdExtension, Fs.userFiles]
      show s.preallocatedBlockcount + (_ - s.layoutInfo.ufdBlocksNum) + _ ≠ s.blockcount
      rw [show (s.withFile [] (fileOfBlocks 452)).files = s.files ++ [fileOfBlocks 452] by
        simp [Fs.withFile, Fs.files, FileTree.addFile], hfiles, hpre, hufds, hblocks]
      decide
  · intro hlt
    rw [Fs.neededDataBlocks, Fs.excessUfdBlocks, Fs.freeBlocks, Fs.userFiles, hfiles, hpre, hufds,
      hblocks] at hlt
    exact absurd hlt (by decide)

/-- A file for all free blocks is accepted, but there is no layout with it. -/
theorem full_floppy : ¬∀ (d : DriveType) (blocks : ℕ) (s₀ s : Fs) (path : Text) (f : File),
    Fs.new d blocks = .ok s₀ → Reached consumeEvent s₀ s → f.internal = false →
      (∀ t, calcLayout s = .ok t → t.Arranged) ∧
        (layoutTest f.fileSize s = .ok () ↔ ∃ t, calcLayout (s.withFile path f) = .ok t) := by
  intro h
  obtain ⟨s₀, s, hnew, hs, hfiles, -, hufds, hpre, hblocks⟩ := exists_floppy
  obtain ⟨hmount, -⟩ := accepted_of_reached hnew hs
  have hlist : (s.withFile [] (fileOfBlocks 453)).files = s.files ++ [fileOfBlocks 453] := by
    simp [Fs.withFile, Fs.files, FileTree.addFile]
  have hext : (s.withFile [] (fileOfBlocks 453)).ufdExtension = 0 := by
    rw [Fs.ufdExtension, hlist, hfiles]
    show _ - s.layoutInfo.ufdBlocksNum = 0
    rw [hufds]
    decide
  have haccept : layoutTest (fileOfBlocks 453).fileSize s = .ok () := by
    rw [layoutTest_eq_ok_iff hmount.room, Fs.neededDataBlocks, Fs.excessUfdBlocks, Fs.freeBlocks,
      Fs.userFiles, hfiles, hpre, hufds, hblocks]
    decide
  have hlayout := (h _ _ _ _ [] _ hnew hs rfl).2.mp haccept
  have hmount' : Mounted (s.withFile [] (fileOfBlocks 453)) := hmount.withTree _
  have hplace := (calcLayout_isOk_iff hmount' (by
    rw [hext]
    exact hmount.room.le)).mp hlayout
  have hroom := hplace.2.2
  rw [Fs.endOfFiles, hext, Fs.dataBlocks, Fs.userFiles, hlist, hfiles] at hroom
  have hroom : s.blockcount = 2 ^ 16 ∨ s.preallocatedBlockcount + 0 + _ < s.blockcount := hroom
  rw [hpre, hblocks] at hroom
  exact absurd hroom (by decide)

end QUniBone.XXDP
