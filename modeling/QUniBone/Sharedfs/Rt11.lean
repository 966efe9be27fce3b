import QUniBone.Sharedfs.Host

/-!
# RT-11 file system

`filesystem_rt11_c` as the host sees it: its files with their streams, and the import and deletion
of host files.

* `Stream`, `File`, `Fs`: the objects.
* `calcBlockUse`: the number of directory segments, and whether the files fit on the volume.
* `importHostFile`, `deleteHostFile`, `consumeEvent`.
-/

namespace QUniBone.RT11

open Sharedfs

/-- `rt11_stream_c` -/
structure Stream where
  hostPath : Text
  data : List (BitVec 8)
  startBlockNr : ℕ
  changed : Bool
  deriving DecidableEq

/-- The extension of a host name that tells the stream -/
inductive StreamCode
  | data
  | dirExt
  | prefixBlock
  deriving DecidableEq

/-- `file_rt11_c` -/
structure File where
  basename : Text
  ext : Text
  internal : Bool
  readonly : Bool
  modificationTime : Tm
  fileSize : ℕ
  status : ℕ
  blockNr : ℕ
  blockCount : ℕ
  streamData : Option Stream
  streamDirExt : Option Stream
  streamPrefix : Option Stream

/-- `make_filename()` -/
def makeFilename (basename ext : Text) : Text :=
  let basename := trim basename
  let ext := trim ext
  let basename := if basename = [] then ['_'] else basename
  (if ext = [] then basename else basename ++ '.' :: ext).map toUpper

namespace File

/-- `get_filename()`, which is the path as well -/
def filename (f : File) : Text := makeFilename f.basename f.ext

/-- `get_stream_ptr()` -/
def stream (f : File) : StreamCode → Option Stream
  | .data => f.streamData
  | .dirExt => f.streamDirExt
  | .prefixBlock => f.streamPrefix

def setStream (f : File) (code : StreamCode) (s : Option Stream) : File :=
  match code with
  | .data => { f with streamData := s }
  | .dirExt => { f with streamDirExt := s }
  | .prefixBlock => { f with streamPrefix := s }

/-- The last stream is gone. -/
def NoStream (f : File) : Prop :=
  f.streamData = none ∧ f.streamDirExt = none ∧ f.streamPrefix = none

instance decidableNoStream (f : File) : Decidable f.NoStream := inferInstanceAs (Decidable (_ ∧ _))

end File

/-- The file system. What `layout_info` says of the drive comes first. -/
structure Fs where
  blockcount : ℕ
  dirSegCount : ℕ
  tree : FileTree File
  firstDirBlocknr : ℕ
  dirTotalSegNum : ℕ
  dirMaxUsedSegNr : ℕ
  dirEntryExtraBytes : ℕ
  dirFileCount : ℕ
  usedFileBlocks : ℕ
  freeBlocks : ℕ

namespace Fs

/-- The files in their order -/
def files (s : Fs) : List File := s.tree.files.map (·.file)

/-- Files with a directory entry -/
def dirFiles (s : Fs) : List File := s.files.filter (!·.internal)

end Fs

/-! ## Directory segments -/

/-- `directory_entries_per_segment()` -/
def directoryEntriesPerSegment (extraBytes : ℕ) : ℕ := (2 * blockSize - 10 - 2) / (14 + extraBytes)

/-- `directory_needed_segments()`: one more entry is that of the empty space. -/
def directoryNeededSegments (extraBytes fileCount : ℕ) : ℕ :=
  neededBlocks (directoryEntriesPerSegment extraBytes) (fileCount + 1)

/-- The loop that plans new files of average size, from a number of them downwards: the segments
for one and a half times as many. -/
def plannedSegments (extraBytes available used dirFileCount average : ℕ) : ℕ → ℕ
  | 0 => directoryNeededSegments extraBytes dirFileCount
  | n + 1 =>
    let segments := directoryNeededSegments extraBytes (dirFileCount + (n + 1) * 3 / 2)
    if available < used + (n + 1) * average + 2 * segments then
      plannedSegments extraBytes available used dirFileCount average n
    else segments

namespace Fs

/-- The blocks for directory and files, an `unsigned` difference -/
def availableBlocks (s : Fs) : ℕ := (s.blockcount + 2 ^ 32 - s.firstDirBlocknr) % 2 ^ 32

/-- The blocks of all files, and of one more that is tested -/
def neededFileBlocks (s : Fs) (testDataSize : ℕ) : ℕ :=
  (s.dirFiles.map (·.blockCount)).sum + neededBlocks blockSize testDataSize

/-- The segments for all files, and for one more that is tested -/
def neededSegments (s : Fs) (testDataSize : ℕ) : ℕ :=
  directoryNeededSegments s.dirEntryExtraBytes
    (if testDataSize = 0 then s.dirFiles.length else s.dirFiles.length + 1)

/-- Files and directory fit on the volume. -/
def Fits (s : Fs) (testDataSize : ℕ) : Prop :=
  s.neededFileBlocks testDataSize + 2 * s.neededSegments testDataSize ≤ s.availableBlocks

instance decidableFits (s : Fs) (testDataSize : ℕ) : Decidable (s.Fits testDataSize) :=
  inferInstanceAs (Decidable (_ ≤ _))

/-- `dir_total_seg_num`: at least the default of the drive. `used_file_blocks` and `free_blocks` are
16 bits wide. -/
def totalSegments (s : Fs) : ℕ :=
  let count := s.dirFiles.length
  let used := s.neededFileBlocks 0 % 2 ^ 16
  let free := (s.availableBlocks - s.neededFileBlocks 0 - 2 * s.neededSegments 0) % 2 ^ 16
  if count = 0 then s.dirSegCount
  else
    let average := max 1 (used / count)
    let planned := plannedSegments s.dirEntryExtraBytes s.availableBlocks used count average
      (free / average)
    max s.dirSegCount (min planned 31)

/-- The numbers of blocks and segments for the files that are there -/
def planned (s : Fs) : Fs :=
  { s with
    dirFileCount := s.dirFiles.length
    dirMaxUsedSegNr := if s.dirFiles.length = 0 then 1 else s.neededSegments 0 % 2 ^ 16
    usedFileBlocks := s.neededFileBlocks 0 % 2 ^ 16
    freeBlocks :=
      (s.availableBlocks - s.neededFileBlocks 0 % 2 ^ 16 - 2 * s.totalSegments) % 2 ^ 16
    dirTotalSegNum := s.totalSegments }

end Fs

/-- `calc_block_use()`: with a size it only tests whether such a file would fit. -/
def calcBlockUse (testDataSize : ℕ) : EStateM Failure Fs Unit := fun s =>
  if s.dirEntryExtraBytes > 16 then .error (.fault .fatal) s
  else if ¬s.Fits testDataSize then
    .error (.exception .overflow)
      { s with
        dirFileCount := s.dirFiles.length
        freeBlocks := if testDataSize = 0 then 0 else s.freeBlocks }
  else if testDataSize ≠ 0 then .ok () { s with dirFileCount := s.dirFiles.length }
  else if s.availableBlocks < s.neededFileBlocks 0 % 2 ^ 16 + 2 * s.totalSegments then
    .error (.fault .assertion) s.planned
  else .ok () s.planned

/-! ## Host files -/

/-- `$VOLUM.INF`, the text about the volume -/
def volumeInfoName : Text × Text := (['$', 'V', 'O', 'L', 'U', 'M'], ['I', 'N', 'F'])

/-- `$BOOT.BLK`: block 0 -/
def bootblockName : Text × Text := (['$', 'B', 'O', 'O', 'T'], ['B', 'L', 'K'])

/-- `$MONI.TOR`: blocks 2 to 5 -/
def monitorName : Text × Text := (['$', 'M', 'O', 'N', 'I'], ['T', 'O', 'R'])

/-- The stream code at the end of a host name. What comes before it is the name of the file. -/
def splitStreamCode (hostFname : Text) : Text × StreamCode :=
  let (base, ext) := splitExt hostFname
  if ext.map toUpper = ['D', 'I', 'R', 'E', 'X', 'T'] then (base, .dirExt)
  else if ext.map toUpper = ['P', 'R', 'E', 'F', 'I', 'X'] then (base, .prefixBlock)
  else (hostFname, .data)

/-- Basename and extension of the DEC file that a host name stands for -/
def decName (hostFname : Text) : Text × Text := filenameFromHost '$' (splitStreamCode hostFname).1

/-- The path of that file. With `file_by_path` this is `stream_by_host_filename()`. -/
def decPath (hostFname : Text) : Text := makeFilename (decName hostFname).1 (decName hostFname).2

/-- `date_adjust()` -/
def dateAdjust : Tm → Tm := Tm.adjust 72

/-- The new file of an import, with its one stream. -/
def newFile (h : HostFile) (internal : Bool) : File :=
  let name := decName h.filename
  let code := (splitStreamCode h.filename).2
  let f : File :=
    { basename := name.1
      ext := name.2
      internal := internal
      readonly := code = .data && h.readonly
      modificationTime := dateAdjust h.modificationTime
      fileSize := if code = .data then blockSize * neededBlocks blockSize h.fileSize else 0
      status := 0
      blockNr := 0
      blockCount :=
        match code with
        | .data => neededBlocks blockSize h.fileSize
        | .prefixBlock => neededBlocks blockSize (h.fileSize + 2)
        | .dirExt => 0
      streamData := none
      streamDirExt := none
      streamPrefix := none }
  f.setStream code (some ⟨h.path, h.data, 0, false⟩)

/-- Boot block and monitor have no directory entry. -/
def isInternal (name : Text × Text) : Bool := name = bootblockName ∨ name = monitorName

/-- What import demands of the size of an internal file. -/
def internalSizeError (name : Text × Text) (size : ℕ) : Option Error :=
  if name = bootblockName ∧ size ≠ blockSize then some .bootblockSize
  else if name = monitorName ∧ size > 4 * blockSize then some (.monitorSize size (4 * blockSize))
  else none

/-- `import_host_file()` -/
def importHostFile (h : HostFile) : EStateM Failure Fs Unit := fun s =>
  let name := decName h.filename
  if ¬h.Accepted then .ok () s
  else if (s.tree.get (decPath h.filename)).isSome then .ok () s
  else if h.fileSize = 0 then .ok () s
  else
    match internalSizeError name h.fileSize with
    | some e => .error (.exception e) s
    | none =>
      if name = volumeInfoName then .ok () s
      else
        match calcBlockUse (if isInternal name then 0 else h.fileSize) s with
        | .error (.exception _) s =>
          .error (.exception (.diskFull (splitStreamCode h.filename).1 h.fileSize)) s
        | .error (.fault f) s => .error (.fault f) s
        | .ok _ s =>
          .ok ()
            { s with
              tree := s.tree.addFile (decPath h.filename) (newFile h (isInternal name))
              dirEntryExtraBytes :=
                if (splitStreamCode h.filename).2 = .dirExt ∧ h.fileSize > s.dirEntryExtraBytes then
                  h.fileSize % 2 ^ 16
                else s.dirEntryExtraBytes }

/-- `delete_host_file()` -/
def deleteHostFile (hostPath : Text) (s : Fs) : Fs :=
  let hostFname := filename hostPath
  let code := (splitStreamCode hostFname).2
  if directories hostPath ≠ ['/'] then s
  else
    match s.tree.get (decPath hostFname) with
    | none => s
    | some n =>
      if n.file.stream code = none then s
      else if decName hostFname = volumeInfoName then s
      else
        let f := n.file.setStream code none
        if f.NoStream then { s with tree := s.tree.removeFile n }
        else { s with tree := s.tree.modify n.id fun _ => f }

/-- `consume_event()`: a change is a deletion and an import. -/
def consumeEvent (s : Fs) : HostEvent → EStateM.Result Failure Fs Unit
  | .create file => importHostFile file s
  | .modify file => importHostFile file (deleteHostFile file.path s)
  | .delete path => .ok () (deleteHostFile path s)

end QUniBone.RT11
