import QUniBone.Sharedfs.Xxdp

/-!
# XXDP layout

Where the objects of the file system lie on the volume.

* `documentedLayoutInfo`, `recalcLayoutInfo`: the areas, by drive and by size.
* `Fs.new`: the file system of an image, without files.
* `calcLayout`: the block numbers of all objects.
-/

namespace QUniBone.XXDP

open Sharedfs

/-! ## Drives -/

/-- `get_documented_layout_info()` -/
def documentedLayoutInfo : DriveType → Option LayoutInfo
  | .TU58 => some
    { ufdBlock1 := 3, ufdBlocksNum := 4, bitmapBlock1 := 7, bitmapBlockCount := 1
      mfd1 := 1, mfd2 := some 2, blocksNum := 512, preallocBlocksNum := 40, interleave := 1
      bootBlockNr := 0, monitorCoreImageStartBlockNr := 8, monitorBlockCount := 16 }
  | .RP0456 => some
    { ufdBlock1 := 3, ufdBlocksNum := 170, bitmapBlock1 := 173, bitmapBlockCount := 50
      mfd1 := 1, mfd2 := some 2, blocksNum := 48000, preallocBlocksNum := 255, interleave := 1
      bootBlockNr := 0, monitorCoreImageStartBlockNr := 223, monitorBlockCount := 16 }
  | .RK035 => some
    { ufdBlock1 := 3, ufdBlocksNum := 16, bitmapBlock1 := 4795, bitmapBlockCount := 5
      mfd1 := 1, mfd2 := some 4794, blocksNum := 4800, preallocBlocksNum := 69, interleave := 5
      bootBlockNr := 0, monitorCoreImageStartBlockNr := 30, monitorBlockCount := 16 }
  | .RL01 => some
    { ufdBlock1 := 24, ufdBlocksNum := 146, bitmapBlock1 := 2, bitmapBlockCount := 22
      mfd1 := 1, mfd2 := none, blocksNum := 10200, preallocBlocksNum := 200, interleave := 1
      bootBlockNr := 0, monitorCoreImageStartBlockNr := 170, monitorBlockCount := 16 }
  | .RL02 => some
    { ufdBlock1 := 24, ufdBlocksNum := 146, bitmapBlock1 := 2, bitmapBlockCount := 22
      mfd1 := 1, mfd2 := none, blocksNum := 20460, preallocBlocksNum := 200, interleave := 1
      bootBlockNr := 0, monitorCoreImageStartBlockNr := 170, monitorBlockCount := 16 }
  | .RK067 => some
    { ufdBlock1 := 31, ufdBlocksNum := 96, bitmapBlock1 := 2, bitmapBlockCount := 29
      mfd1 := 1, mfd2 := none, blocksNum := 27104, preallocBlocksNum := 157, interleave := 1
      bootBlockNr := 0, monitorCoreImageStartBlockNr := 127, monitorBlockCount := 16 }
  | .RP023 => some
    -- the number of blocks is unknown: -1, which is unsigned
    { ufdBlock1 := 3, ufdBlocksNum := 170, bitmapBlock1 := 173, bitmapBlockCount := 2
      mfd1 := 1, mfd2 := some 2, blocksNum := 2 ^ 32 - 1, preallocBlocksNum := 255, interleave := 1
      bootBlockNr := 0, monitorCoreImageStartBlockNr := 223, monitorBlockCount := 16 }
  | .RM => some
    { ufdBlock1 := 52, ufdBlocksNum := 170, bitmapBlock1 := 2, bitmapBlockCount := 50
      mfd1 := 1, mfd2 := none, blocksNum := 48000, preallocBlocksNum := 255, interleave := 1
      bootBlockNr := 0, monitorCoreImageStartBlockNr := 222, monitorBlockCount := 16 }
  | .RS => some
    { ufdBlock1 := 3, ufdBlocksNum := 4, bitmapBlock1 := 7, bitmapBlockCount := 2
      mfd1 := 1, mfd2 := some 2, blocksNum := 989, preallocBlocksNum := 41, interleave := 1
      bootBlockNr := 0, monitorCoreImageStartBlockNr := 9, monitorBlockCount := 16 }
  | .TU56 => some
    { ufdBlock1 := 102, ufdBlocksNum := 2, bitmapBlock1 := 104, bitmapBlockCount := 1
      mfd1 := 100, mfd2 := some 101, blocksNum := 576, preallocBlocksNum := 69, interleave := 5
      bootBlockNr := 0, monitorCoreImageStartBlockNr := 30, monitorBlockCount := 16 }
  | .RX01 => some
    { ufdBlock1 := 3, ufdBlocksNum := 4, bitmapBlock1 := 7, bitmapBlockCount := 1
      mfd1 := 1, mfd2 := some 2, blocksNum := 494, preallocBlocksNum := 40, interleave := 1
      bootBlockNr := 0, monitorCoreImageStartBlockNr := 8, monitorBlockCount := 16 }
  | .RX02 => some
    { ufdBlock1 := 3, ufdBlocksNum := 16, bitmapBlock1 := 19, bitmapBlockCount := 4
      mfd1 := 1, mfd2 := some 2, blocksNum := 988, preallocBlocksNum := 55, interleave := 1
      bootBlockNr := 0, monitorCoreImageStartBlockNr := 23, monitorBlockCount := 16 }
  | _ => none

/-- What one block of the bitmap covers -/
abbrev blocksPerMap : ℕ := 60 * 16

/-- `recalc_layout_info()`: the areas one behind the other, for an image of this many blocks. A
monitor that does not fit is only logged. -/
def recalcLayoutInfo (l : LayoutInfo) (blocks : ℕ) : LayoutInfo :=
  let twoMfds := 0 < l.mfd2.getD 0
  let ufdBlock1 := if twoMfds then 3 else 2
  let ufdBlocksNum := max l.ufdBlocksNum (blocks / 280)
  let bitmapBlock1 := (ufdBlock1 + ufdBlocksNum) % 2 ^ 16
  let bitmapBlockCount := neededBlocks blocksPerMap blocks
  { l with
    interleave := 1
    mfd1 := 1
    mfd2 := if twoMfds then some 2 else l.mfd2
    ufdBlock1 := ufdBlock1
    ufdBlocksNum := ufdBlocksNum
    bitmapBlock1 := bitmapBlock1
    bitmapBlockCount := bitmapBlockCount
    monitorCoreImageStartBlockNr := (bitmapBlock1 + bitmapBlockCount) % 2 ^ 16 }

/-! ## Linked blocks -/

namespace LinkedBlock

/-- A block of zeros, which ends a list -/
def empty (blockNr : ℕ) : LinkedBlock := ⟨blockNr, ⟨blockSize, fun _ => 0⟩⟩

/-- `set_word_at_word_offset()` -/
def setWord (b : LinkedBlock) (index w : ℕ) : LinkedBlock :=
  ⟨b.startBlockNr, b.data.setWord (2 * index) w⟩

/-- `get_next_block_nr()` -/
def link (b : LinkedBlock) : ℕ := b.data.word 0

end LinkedBlock

/-- `add_empty_block()` -/
def addEmptyBlock : List LinkedBlock → ℕ → List LinkedBlock
  | [], nr => [.empty nr]
  | [b], nr => [b.setWord 0 nr, .empty nr]
  | b :: b' :: bs, nr => b :: addEmptyBlock (b' :: bs) nr

/-- A new list of empty blocks -/
def emptyBlocks (nrs : List ℕ) : List LinkedBlock := nrs.foldl addEmptyBlock []

/-! ## The file system of an image -/

namespace LayoutInfo

/-- The numbers of the MFD blocks, by its variety -/
def mfdNrs (l : LayoutInfo) : ℕ → List ℕ
  | 1 => [l.mfd1, l.mfd2.getD (2 ^ 16 - 1)]
  | _ => [l.mfd1]

/-- 1 for two blocks, 2 for a single one -/
def mfdVariety (l : LayoutInfo) : ℕ := if l.mfd2.isSome then 1 else 2

end LayoutInfo

namespace Fs

/-- `init()` -/
def init (l : LayoutInfo) (blocks : ℕ) : Fs where
  layoutInfo := l
  blockcount := min blocks (2 ^ 16)
  preallocatedBlockcount := l.preallocBlocksNum
  monitorStartBlockNr := l.monitorCoreImageStartBlockNr
  monitorMaxBlockCount := (l.preallocBlocksNum + 2 ^ 16 - l.monitorCoreImageStartBlockNr) % 2 ^ 16
  interleave := l.interleave
  mfdVariety := l.mfdVariety
  bitmapUsed _ := false
  bitmapBlockList := []
  mfdBlockList := emptyBlocks (l.mfdNrs l.mfdVariety)
  ufdBlockList := []
  tree := .empty

/-- The constructor: the image of a drive, of this many blocks -/
def new (d : DriveType) (blocks : ℕ) : Except Fault Fs :=
  match documentedLayoutInfo d with
  | none => .error .fatal
  | some l =>
    if blocks * blockSize < l.blocksNum * blockSize % 2 ^ 32 then .error .assertion
    else .ok (init (if l.blocksNum < blocks then recalcLayoutInfo l blocks else l) blocks)

end Fs

/-! ## Layout -/

/-- Consecutive block numbers, of 16 bit -/
def blockRow (start count : ℕ) : List ℕ := (List.range count).map fun i => (start + i) % 2 ^ 16

/-- The blocks for the data of a file, from the `j`-th on -/
def allocate (blockcount : ℕ) : ℕ → ℕ → ℕ → Except Error (List ℕ)
  | 0, _, _ => .ok []
  | n + 1, j, blockNr =>
    if 1024 ≤ j then .error .fileTooLarge
    else if blockcount ≤ blockNr then .error .overflow
    else (blockNr :: ·) <$> allocate blockcount n (j + 1) ((blockNr + 1) % 2 ^ 16)

/-- A file from a block number on, and the block number behind it -/
def layoutFile (blockcount blockNr : ℕ) (f : File) : Except Failure (File × ℕ) :=
  let count := neededBlocks blockDatasize f.fileSize % 2 ^ 16
  if count = 0 then .error (.fault .assertion)
  else
    match allocate blockcount count 0 blockNr with
    | .error e => .error (.exception e)
    | .ok nrs =>
      .ok
        ({ f with
            startBlockNr := blockNr
            lastBlockNr := nrs.getLastD blockNr
            blockCount := count
            blockNrList := nrs },
          (blockNr + count) % 2 ^ 16)

/-- The files one behind the other. Boot block and monitor are not among them. -/
def layoutFiles (blockcount : ℕ) : ℕ → List (Node File) → Except Failure (List (Node File) × ℕ)
  | blockNr, [] => .ok ([], blockNr)
  | blockNr, n :: ns =>
    if n.file.internal then
      match layoutFiles blockcount blockNr ns with
      | .error e => .error e
      | .ok (ns, next) => .ok (n :: ns, next)
    else
      match layoutFile blockcount blockNr n.file with
      | .error e => .error e
      | .ok (f, blockNr) =>
        match layoutFiles blockcount blockNr ns with
        | .error e => .error e
        | .ok (ns, next) => .ok ({ n with file := f } :: ns, next)

namespace Fs

/-- The UFD blocks beyond those of the layout, as many as for two files fewer than there are -/
def ufdExtension (s : Fs) : ℕ :=
  neededBlocks ufdEntriesPerBlock (s.files.length - 2) - s.layoutInfo.ufdBlocksNum

/-- The numbers of the UFD blocks: the preallocated ones, then those in free space -/
def ufdNrs (s : Fs) : List ℕ :=
  blockRow s.layoutInfo.ufdBlock1 s.layoutInfo.ufdBlocksNum ++
    blockRow s.preallocatedBlockcount s.ufdExtension

/-- The numbers of the bitmap blocks -/
def bitmapNrs (s : Fs) : List ℕ := blockRow s.layoutInfo.bitmapBlock1 s.layoutInfo.bitmapBlockCount

/-- The numbers of the MFD blocks -/
def mfdNrs (s : Fs) : List ℕ := s.layoutInfo.mfdNrs s.mfdVariety

/-- The first block behind the preallocated ones and the UFD -/
def firstFileBlock (s : Fs) : ℕ :=
  max s.preallocatedBlockcount ((s.preallocatedBlockcount + s.ufdExtension) % 2 ^ 16)

/-- The block numbers of the files -/
def fileNrs (s : Fs) : List (List ℕ) := s.userFiles.map (·.blockNrList)

end Fs

/-- `calc_layout()` -/
def calcLayout (s : Fs) : Except Failure Fs :=
  if s.mfdVariety ≠ 1 ∧ s.mfdVariety ≠ 2 then .error (.fault .fatal)
  else if s.files.length < 2 then .error (.fault .assertion)
  else
    match layoutFiles s.blockcount s.firstFileBlock s.tree.files with
    | .error e => .error e
    | .ok (nodes, next) =>
      if s.blockcount ≤ next then .error (.exception .overflow)
      else
        let t : Fs := { s with tree := { s.tree with files := nodes } }
        .ok
          { t with
            bitmapUsed := fun n =>
              n < s.preallocatedBlockcount ||
                n ∈ s.bitmapNrs ++ s.mfdNrs ++ s.ufdNrs ++ t.fileNrs.flatten
            bitmapBlockList := emptyBlocks s.bitmapNrs
            mfdBlockList := emptyBlocks s.mfdNrs
            ufdBlockList := emptyBlocks s.ufdNrs }

end QUniBone.XXDP
