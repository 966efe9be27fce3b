import QUniBone.Sharedfs.XxdpParse
import QUniBone.Sharedfs.DecNames

/-!
# XXDP rendering

`filesystem_xxdp_c::render`: the file system is written into the blocks of its image.

* `setWords`, `loadFromFileBuffer`: words and file data into the blocks of a list.
* `renderBitmap`, `renderMfd`, `renderUfd`: the tables, in blocks that the layout has linked.
* `renderFileData`: the data of the files.
* `render`: all of it, behind `calcLayout`.
-/

namespace QUniBone.XXDP

open Sharedfs

/-! ## Blocks -/

namespace LinkedBlock

/-- Words from an offset on -/
def setWords (b : LinkedBlock) (offset : ℕ) : List ℕ → LinkedBlock
  | [] => b
  | w :: ws => (b.setWord offset w).setWords (offset + 1) ws

/-- Bytes behind the link word -/
def fill (b : LinkedBlock) (bytes : List (BitVec 8)) : LinkedBlock :=
  ⟨b.startBlockNr, b.data.size, fun i =>
    if 2 ≤ i ∧ i < 2 + bytes.length then bytes.getD (i - 2) 0 else b.data.byte i⟩

end LinkedBlock

/-- The loop of `load_from_file_buffer()`. The size of a piece is not reset for the next block. -/
def loadFromFileBuffer : ℕ → List LinkedBlock → List (BitVec 8) → Except Fault (List LinkedBlock)
  | _, [], bytes => if bytes = [] then .ok [] else .error .assertion
  | size, b :: bs, bytes =>
    let size := min size bytes.length
    (b.fill (bytes.take size) :: ·) <$> loadFromFileBuffer size bs (bytes.drop size)

/-! ## Tables -/

/-- A bitmap block with the flag of a block of the image, and with the first flag the head -/
def flagBlock (s : Fs) (firstBlockNr n : ℕ) (b : LinkedBlock) : LinkedBlock :=
  let bit := n % blocksPerMap
  let b := if bit = 0 then b.setWords 1 [n / blocksPerMap + 1, 60, firstBlockNr] else b
  if s.bitmapUsed n then
    b.setWord (bit / 16 + 4) (b.wordAt (bit / 16 + 4) ||| 2 ^ (bit % 16))
  else b

/-- The loop of `render_bitmap()`. There may be fewer bitmap blocks than are needed. -/
def renderBitmapFlag (s : Fs) (firstBlockNr : ℕ) (bs : List LinkedBlock) (n : ℕ) :
    Except Fault (List LinkedBlock) :=
  match bs[n / blocksPerMap]? with
  | none => .error .overrun
  | some b => .ok (bs.set (n / blocksPerMap) (flagBlock s firstBlockNr n b))

/-- `render_bitmap()`, without the image -/
def renderBitmap (s : Fs) : Except Fault (List LinkedBlock) :=
  match s.bitmapBlockList with
  | [] => .error .assertion
  | b :: bs => (List.range s.blockcount).foldlM (renderBitmapFlag s b.startBlockNr) (b :: bs)

/-- `render_mfd()`, without the image -/
def renderMfd (s : Fs) : Except Fault (List LinkedBlock) :=
  match s.bitmapBlockList, s.ufdBlockList with
  | bitmap :: bitmaps, ufd :: ufds =>
    match s.mfdVariety, s.mfdBlockList with
    | 1, [mfd1, mfd2] =>
      if 251 < (bitmap :: bitmaps).length then .error .assertion
      else .ok
        [mfd1.setWords 1 ([s.interleave, bitmap.startBlockNr] ++
            (bitmap :: bitmaps).map (·.startBlockNr) ++ [0]),
          mfd2.setWords 1 [0o401, ufd.startBlockNr, 9, 0]]
    | 2, [mfd] => .ok
        [mfd.setWords 1 [ufd.startBlockNr, (ufd :: ufds).length, bitmap.startBlockNr,
          (bitmap :: bitmaps).length, mfd.startBlockNr, 0, s.blockcount, s.preallocatedBlockcount,
          s.interleave, 0, s.monitorStartBlockNr, 0, 0, 0, 0, 0]]
    | 1, _ => .error .assertion
    | 2, _ => .error .assertion
    | _, _ => .error .fatal
  | _, _ => .error .overrun

/-- The words of an entry -/
def File.ufdWords (f : File) (date : ℕ) : List ℕ :=
  let w := encodeWords (f.basename, f.ext)
  [w.name1.toNat, w.name2.toNat, w.ext.toNat, date, 0, f.startBlockNr, f.blockCount,
    f.lastBlockNr, 0]

/-- The entry of a file, the `no`-th one -/
def renderUfdEntry (bs : List LinkedBlock) (no : ℕ) (f : File) : Except Fault (List LinkedBlock) :=
  match bs[no / ufdEntriesPerBlock]? with
  | none => .error .overrun
  | some b =>
    match dos11dateEncode f.modificationTime with
    | .error e => .error e
    | .ok date =>
      .ok (bs.set (no / ufdEntriesPerBlock)
        (b.setWords (1 + 9 * (no % ufdEntriesPerBlock)) (f.ufdWords date)))

def renderUfdEntries (bs : List LinkedBlock) : ℕ → List File → Except Fault (List LinkedBlock)
  | _, [] => .ok bs
  | no, f :: fs =>
    match renderUfdEntry bs no f with
    | .error e => .error e
    | .ok bs => renderUfdEntries bs (no + 1) fs

/-- `render_ufd()`, without the image -/
def renderUfd (s : Fs) : Except Fault (List LinkedBlock) :=
  renderUfdEntries s.ufdBlockList 0 s.userFiles

/-! ## Files -/

/-- A list of blocks for a file -/
def renderFile (p : Partition) (f : File) : Except Fault Partition :=
  if f.data.length < f.fileSize then .error .overrun
  else (writeToImage · p) <$>
    loadFromFileBuffer blockDatasize (emptyBlocks f.blockNrList) (f.data.take f.fileSize)

/-- `render_file_data()`: a difference between the length of the list and `block_count` is only
reported. -/
def renderFileData (p : Partition) : List File → Except Fault Partition
  | [] => .ok p
  | f :: fs =>
    if f.isContiguousFile then .error .assertion
    else
      match renderFile p f with
      | .error e => .error e
      | .ok p => renderFileData p fs

/-- `render_contiguous_file_data()`: whole blocks, with zeros behind the data -/
def renderContiguousFileData (p : Partition) (start : ℕ) (data : List (BitVec 8)) : Partition :=
  p.setBlocks start ⟨blockSize * neededBlocks blockSize data.length, fun i => data.getD i 0⟩

/-- Boot block or monitor. Their blocks are cleared if there is no such file. -/
def renderInternal (p : Partition) (file : Option (Node File)) (start count : ℕ) (legal : ℕ → Bool)
    (illegal : ℕ → Error) : Except Failure Partition :=
  match file with
  | none => .ok (p.setBlocks start ⟨blockSize * count, fun _ => 0⟩)
  | some n =>
    if legal n.file.data.length then .ok (renderContiguousFileData p start n.file.data)
    else .error (.exception (illegal n.file.data.length))

/-! ## All of it -/

def Fs.bootblock (s : Fs) : Option (Node File) :=
  s.tree.get (makeFilename bootblockName.1 bootblockName.2)

def Fs.monitor (s : Fs) : Option (Node File) :=
  s.tree.get (makeFilename monitorName.1 monitorName.2)

/-- Boot block and monitor -/
def renderInternals (p : Partition) (s : Fs) : Except Failure Partition :=
  match renderInternal p s.bootblock s.layoutInfo.bootBlockNr 1 (fun size => size = blockSize)
      .bootblockIllegal with
  | .error e => .error e
  | .ok p =>
    renderInternal p s.monitor s.monitorStartBlockNr s.monitorMaxBlockCount
      (fun size => size ≤ s.monitorMaxBlockCount * blockSize) .monitorIllegal

/-- The tables in their order, then the data -/
def renderArranged (p : Partition) (s : Fs) : Except Fault Partition :=
  match renderBitmap s with
  | .error e => .error e
  | .ok bitmap =>
    match renderMfd s with
    | .error e => .error e
    | .ok mfd =>
      match renderUfd s with
      | .error e => .error e
      | .ok ufd =>
        renderFileData (writeToImage ufd (writeToImage mfd (writeToImage bitmap p))) s.userFiles

/-- `render()` -/
def render (p : Partition) (s : Fs) : Except Failure (Fs × Partition) :=
  match calcLayout s with
  | .error e => .error e
  | .ok s =>
    if p.blockCount < s.blockcount then .error (.exception .imageTooSmall)
    else
      match renderInternals p s with
      | .error e => .error e
      | .ok p =>
        match renderArranged p s with
        | .error f => .error (.fault f)
        | .ok p => .ok (s, p)

end QUniBone.XXDP
