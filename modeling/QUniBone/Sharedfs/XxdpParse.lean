import QUniBone.Lib.Avoid
import QUniBone.Sharedfs.XxdpLayout

/-!
# XXDP parser

The file system that the blocks of an image hold.

* `loadBlocks`: the blocks of a linked list.
* `dos11dateDecode`: dates.
* `parseMfdLoadBitmapUfd`, `parseBitmap`, `parseUfd`, `parseFileData`: the parts of the parser.
* `parse`: all of them, and the flags of changed files.
-/

namespace QUniBone.XXDP

open Sharedfs Prog

/-! ## Block lists -/

namespace LinkedBlock

/-- `get_word_at_word_offset()`: a block has 256 words. -/
def wordAt (b : LinkedBlock) (index : ℕ) : ℕ := b.data.word (2 * index)

end LinkedBlock

/-- The loop of `load_from_image()`, for at most `n` blocks. All of them are copies of one object,
which keeps the number that it was made with. -/
def loadBlocks (p : Partition) (start : ℕ) : ℕ → ℕ → Except Fault (List LinkedBlock)
  | 0, _ => .ok []
  | n + 1, blockNr =>
    match p.getBlocks blockNr 1 with
    | .error f => .error f
    | .ok data =>
      let block : LinkedBlock := ⟨start, data⟩
      if block.link = 0 then .ok [block]
      else (block :: ·) <$> loadBlocks p start n block.link

/-- `XXDP_MAX_BLOCKS_PER_LIST` -/
abbrev maxBlocksPerList : ℕ := 1024

/-- The last block ends the list. -/
def Ends (bs : List LinkedBlock) : Prop := bs.getLast?.map (·.link) = some 0

instance decidableEnds (bs : List LinkedBlock) : Decidable (Ends bs) :=
  inferInstanceAs (Decidable (_ = _))

/-- `load_from_image()` into a list of the file system -/
def loadFromImage (p : Partition) (start : ℕ) (store : List LinkedBlock → Fs → Fs) :
    EStateM Failure Fs (List LinkedBlock) := fun s =>
  match loadBlocks p start maxBlocksPerList start with
  | .error f => .error (.fault f) s
  | .ok bs =>
    if Ends bs then .ok bs (store bs s) else .error (.exception .blockListTooLong) (store bs s)

/-- `verify()`: every block is the one that the block before it points to. -/
def Verified : List LinkedBlock → Prop
  | [] => True
  | [b] => b.link = 0
  | b :: b' :: bs => 0 < b.link ∧ b.link = b'.startBlockNr ∧ Verified (b' :: bs)

instance decidableVerified : (bs : List LinkedBlock) → Decidable (Verified bs)
  | [] => isTrue trivial
  | [b] => inferInstanceAs (Decidable (b.link = 0))
  | b :: b' :: bs =>
    have := decidableVerified (b' :: bs)
    inferInstanceAs (Decidable (0 < b.link ∧ b.link = b'.startBlockNr ∧ Verified (b' :: bs)))

/-- `get_block_by_block_nr()` -/
def blockByNr (bs : List LinkedBlock) (nr : ℕ) : Option LinkedBlock :=
  bs.find? (·.startBlockNr = nr)

/-- `write_to_image()` -/
def writeToImage (bs : List LinkedBlock) (p : Partition) : Partition :=
  bs.foldl (fun p b => p.setBlocks b.startBlockNr b.data) p

/-! ## Dates -/

/-- `is_leapyear()` -/
def isLeapyear (y : ℕ) : Bool := (y % 4 = 0 && y % 100 ≠ 0) || y % 400 = 0

/-- `monthlen_leapyear[]`, `monthlen_noleapyear[]` -/
def monthlen (y : ℕ) : List ℕ :=
  [31, if isLeapyear y then 29 else 28, 31, 30, 31, 30, 31, 31, 30, 31, 30, 31]

/-- The month and the day in it, for a day of the year. Nothing keeps the loop inside the table. -/
def monthOfDay : List ℕ → ℕ → ℕ → Except Fault (ℕ × ℕ)
  | [], _, _ => .error .overrun
  | len :: lens, m, d => if len < d then monthOfDay lens (m + 1) (d - len) else .ok (m, d)

/-- `dos11date_encode()` -/
def dos11dateEncode (t : Tm) : Except Fault ℕ :=
  if 99 < t.year then .error .assertion
  else
    let y := 1900 + t.year
    let doy := ((monthlen y.toNat).take t.mon.toNat).sum
    .ok ((doy + t.mday + 1000 * (y - 1970)) % 2 ^ 16).toNat

/-- `dos11date_decode()` -/
def dos11dateDecode (w : ℕ) : Except Fault Tm :=
  let y := w / 1000 + 1970
  match monthOfDay (monthlen y) 0 (w % 1000) with
  | .error f => .error f
  | .ok (m, d) =>
    let t : Tm := ⟨y - 1900, m, d⟩
    match dos11dateEncode t with
    | .error f => .error f
    | .ok w' => if w = w' then .ok t else .error .assertion

/-! ## Special blocks -/

/-- `parse_mfd_load_bitmap_ufd()` for two MFD blocks -/
def parseTwoMfds (p : Partition) (mfd : List LinkedBlock) (mfd1 : LinkedBlock) :
    EStateM Failure Fs Bool := do
  modify fun s => { s with interleave := mfd1.wordAt 1 }
  let bitmap ← loadFromImage p (mfd1.wordAt 2) fun bs s => { s with bitmapBlockList := bs }
  require (Verified bitmap) (.fault .assertion)
  -- the table of bitmap blocks in the MFD
  require (bitmap.length + 2 < 255 ∧ ∀ i < bitmap.length,
    some (mfd1.wordAt (i + 3)) = bitmap[i]?.map (·.startBlockNr)) (.fault .assertion)
  match blockByNr mfd mfd1.link with
  | none => throw (.fault .nullPointer)
  | some mfd2 => do
    let ufd ← loadFromImage p (mfd2.wordAt 2) fun bs s => { s with ufdBlockList := bs }
    require (Verified ufd) (.fault .assertion)
    pure true

/-- `parse_mfd_load_bitmap_ufd()` for a single MFD block -/
def parseOneMfd (p : Partition) (mfd : LinkedBlock) : EStateM Failure Fs Bool := do
  let _ ← loadFromImage p (mfd.wordAt 1) fun bs s => { s with ufdBlockList := bs }
  let _ ← loadFromImage p (mfd.wordAt 3) fun bs s => { s with bitmapBlockList := bs }
  modify fun s =>
    { s with
      blockcount := mfd.wordAt 7
      preallocatedBlockcount := mfd.wordAt 8
      interleave := mfd.wordAt 9
      monitorStartBlockNr := mfd.wordAt 11
      monitorMaxBlockCount := (mfd.wordAt 8 + 2 ^ 16 - mfd.wordAt 11) % 2 ^ 16 }
  pure true

/-- All words are 0: the image is empty. -/
def isBlank (b : LinkedBlock) : Bool := (List.range 256).all fun i => b.wordAt i = 0

/-- `parse_mfd_load_bitmap_ufd()`: `false` for an empty image -/
def parseMfdLoadBitmapUfd (p : Partition) : EStateM Failure Fs Bool := do
  let s ← get
  let mfd ← loadFromImage p s.layoutInfo.mfd1 fun bs s => { s with mfdBlockList := bs }
  match mfd with
  | [] => throw (.fault .overrun)
  | mfd1 :: rest =>
    if isBlank mfd1 then pure false
    else if rest.length = 1 then parseTwoMfds p mfd mfd1
    else if rest.length = 0 then parseOneMfd p mfd1
    else throw (.fault .fatal)

/-- What the blocks of the bitmap say of themselves: their number, the number of their words, and
the first one. Block numbers have 16 bit. -/
def BitmapHeads (bs : List LinkedBlock) : Prop :=
  bs.length * blocksPerMap ≤ 2 ^ 16 ∧ ∀ i < bs.length,
    bs[i]?.map (fun b => (b.wordAt 1, b.wordAt 2, b.wordAt 3)) =
      bs.head?.map fun b => (i + 1, 60, b.startBlockNr)

instance decidableBitmapHeads (bs : List LinkedBlock) : Decidable (BitmapHeads bs) :=
  inferInstanceAs (Decidable (_ ∧ ∀ i < bs.length, _ = _))

/-- The flag of a block in the bitmap -/
def bitmapFlag (bs : List LinkedBlock) (n : ℕ) : Bool :=
  match bs[n / blocksPerMap]? with
  | none => false
  | some b => (b.wordAt (n % blocksPerMap / 16 + 4)).testBit (n % 16)

/-- `parse_bitmap()` -/
def parseBitmap : EStateM Failure Fs Unit := do
  let s ← get
  require (BitmapHeads s.bitmapBlockList) (.fault .assertion)
  modify fun s => { s with bitmapUsed := bitmapFlag s.bitmapBlockList }

/-! ## Files -/

/-- An entry of the UFD -/
structure UfdEntry where
  name1 : ℕ
  name2 : ℕ
  ext : ℕ
  date : ℕ
  startBlockNr : ℕ
  blockCount : ℕ
  lastBlockNr : ℕ

/-- The `j`-th entry of a UFD block -/
def ufdEntry (b : LinkedBlock) (j : ℕ) : UfdEntry where
  name1 := b.wordAt (1 + 9 * j)
  name2 := b.wordAt (2 + 9 * j)
  ext := b.wordAt (3 + 9 * j)
  date := b.wordAt (4 + 9 * j)
  startBlockNr := b.wordAt (6 + 9 * j)
  blockCount := b.wordAt (7 + 9 * j)
  lastBlockNr := b.wordAt (8 + 9 * j)

/-- The entries of the UFD. One without a name is invalid. -/
def ufdEntries (bs : List LinkedBlock) : List UfdEntry :=
  bs.flatMap fun b =>
    ((List.range ufdEntriesPerBlock).map (ufdEntry b)).filter (·.name1 ≠ 0)

namespace UfdEntry

def basename (e : UfdEntry) : Text := rad50Decode e.name1 ++ rad50Decode e.name2

/-- The path of the file -/
def path (e : UfdEntry) : Text := makeFilename e.basename (rad50Decode e.ext)

/-- The file of an entry, without its data -/
def toFile (e : UfdEntry) (t : Tm) : File where
  basename := e.basename
  ext := rad50Decode e.ext
  internal := false
  isContiguousFile := false
  readonly := false
  modificationTime := t
  fileSize := 0
  startBlockNr := e.startBlockNr
  lastBlockNr := e.lastBlockNr
  blockNrList := []
  blockCount := e.blockCount
  data := []
  hostPath := '/' :: e.path
  changed := false

end UfdEntry

/-- `XXDP_MAX_FILES_PER_IMAGE` -/
abbrev maxFilesPerImage : ℕ := 2000

/-- The file of an entry comes into the root directory. -/
def addEntry (e : UfdEntry) : EStateM Failure Fs Unit := fun s =>
  if maxFilesPerImage ≤ s.files.length then .error (.exception .tooManyFiles) s
  else
    match dos11dateDecode e.date with
    | .error f => .error (.fault f) s
    | .ok t => .ok () { s with tree := s.tree.addFile e.path (e.toFile t) }

def addEntries : List UfdEntry → EStateM Failure Fs Unit
  | [] => pure ()
  | e :: es => do
    addEntry e
    addEntries es

/-- `parse_ufd()` -/
def parseUfd : EStateM Failure Fs Unit := do
  let s ← get
  addEntries (ufdEntries s.ufdBlockList)

/-- The file for blocks that have no entry -/
def internalFile (name : Text × Text) (start count : ℕ) (data : List (BitVec 8)) : File where
  basename := name.1
  ext := name.2
  internal := true
  isContiguousFile := true
  readonly := true
  modificationTime := dos11dateAdjust nullTime
  fileSize := data.length
  startBlockNr := start
  lastBlockNr := (start + count + (2 ^ 16 - 1)) % 2 ^ 16
  blockNrList := []
  blockCount := count
  data := data
  hostPath := '/' :: makeFilename name.1 name.2
  changed := false

/-- `parse_internal_contiguous_file()` -/
def parseInternalContiguousFile (p : Partition) (name : Text × Text) (start count : ℕ) :
    EStateM Failure Fs Unit := fun s =>
  let path := makeFilename name.1 name.2
  if (s.tree.get path).isSome then .error (.fault .assertion) s
  else
    match p.getBlocks start count with
    | .error f => .error (.fault f) s
    | .ok data =>
      .ok () { s with tree := s.tree.addFile path (internalFile name start count data.toList) }

/-- `write_to_file_buffer()`: what the blocks hold behind their link words -/
def fileData (bs : List LinkedBlock) : List (BitVec 8) := bs.flatMap (·.data.toList.drop 2)

/-- `parse_file_data()` -/
def parseFileData (p : Partition) (n : Node File) : EStateM Failure Fs Unit := do
  let bs ← loadFromImage p n.file.startBlockNr fun _ s => s
  modify fun s =>
    { s with
      tree := s.tree.modify n.id fun f =>
        { f with
          blockNrList := bs.map (·.startBlockNr)
          fileSize := bs.length * blockDatasize
          data := fileData bs } }

/-- The data of all files that have an entry -/
def parseFiles (p : Partition) : List (Node File) → EStateM Failure Fs Unit
  | [] => pure ()
  | n :: ns =>
    if n.file.internal then parseFiles p ns
    else do
      parseFileData p n
      parseFiles p ns

/-! ## All of it -/

/-- `init()` of a file system that there is -/
def Fs.cleared (s : Fs) : Fs := .init s.layoutInfo s.blockcount

/-- The parts that may throw -/
def parseAll (p : Partition) : EStateM Failure Fs Unit := do
  let found ← parseMfdLoadBitmapUfd p
  if found then do
    parseBitmap
    parseUfd
    let s ← get
    parseInternalContiguousFile p bootblockName s.layoutInfo.bootBlockNr 1
    parseInternalContiguousFile p monitorName s.layoutInfo.monitorCoreImageStartBlockNr
      s.monitorMaxBlockCount
    let s ← get
    parseFiles p s.tree.files
  else pure ()

/-- The blocks that `calc_change_flags()` looks at for a file -/
def File.watchedNrs (f : File) : List ℕ :=
  if f.isContiguousFile then
    List.range' f.startBlockNr
      ((f.startBlockNr + neededBlocks blockSize f.fileSize) % 2 ^ 16 - f.startBlockNr)
  else f.blockNrList

/-- The flag of every file -/
def fileFlags (p : Partition) : List (Node File) → Except Fault (List (Node File))
  | [] => .ok []
  | n :: ns =>
    match p.anyChanged n.file.watchedNrs with
    | .error f => .error f
    | .ok changed =>
      ({ n with file := { n.file with changed := changed } } :: ·) <$> fileFlags p ns

/-- `calc_change_flags()`: the flags of the lists are read for the volume info only, which has the
flag of its own blocks in the end. -/
def calcChangeFlags (p : Partition) (s : Fs) : Except Fault Fs :=
  if ∀ b ∈ s.mfdBlockList ++ s.bitmapBlockList ++ s.ufdBlockList,
      b.startBlockNr < p.blockCount then
    (fun ns => { s with tree := { s.tree with files := ns } }) <$> fileFlags p s.tree.files
  else .error .outOfRange

/-- `parse()`: an exception leaves the files that have been found. -/
def parse (p : Partition) (s : Fs) : Except Fault (Fs × Option Error) :=
  match parseAll p s.cleared with
  | .ok _ t => (·, none) <$> calcChangeFlags p t
  | .error (.exception e) t => (·, some e) <$> calcChangeFlags p t
  | .error (.fault f) _ => .error f

end QUniBone.XXDP
