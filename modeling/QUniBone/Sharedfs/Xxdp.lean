import QUniBone.Sharedfs.Host

/-!
# XXDP file system

`filesystem_xxdp_c` as the host sees it: its files, and the import and deletion of host files.

* `LayoutInfo`, `LinkedBlock`, `File`, `Fs`: the objects.
* `layoutTest`: whether a new file would fit on the volume.
* `importHostFile`, `deleteHostFile`, `consumeEvent`.
-/

namespace QUniBone.XXDP

open Sharedfs

/-- `layout_info_t`: the areas of a drive -/
structure LayoutInfo where
  ufdBlock1 : ℕ
  ufdBlocksNum : ℕ
  bitmapBlock1 : ℕ
  bitmapBlockCount : ℕ
  mfd1 : ℕ
  /-- -1 for a single block -/
  mfd2 : Option ℕ
  blocksNum : ℕ
  preallocBlocksNum : ℕ
  interleave : ℕ
  bootBlockNr : ℕ
  monitorCoreImageStartBlockNr : ℕ
  monitorBlockCount : ℕ

/-- `xxdp_linked_block_c`: a block in memory, with the number it stands under. -/
structure LinkedBlock where
  startBlockNr : ℕ
  data : ByteBuffer

/-- `file_xxdp_c`, which is its own stream -/
structure File where
  basename : Text
  ext : Text
  internal : Bool
  isContiguousFile : Bool
  readonly : Bool
  modificationTime : Tm
  fileSize : ℕ
  startBlockNr : ℕ
  lastBlockNr : ℕ
  blockNrList : List ℕ
  blockCount : ℕ
  data : List (BitVec 8)
  hostPath : Text
  changed : Bool
  deriving DecidableEq

/-- `make_filename()`: the dot is there without an extension, too. -/
def makeFilename (basename ext : Text) : Text := (trim basename ++ '.' :: trim ext).map toUpper

/-- `get_filename()`, which is the path as well -/
def File.filename (f : File) : Text := makeFilename f.basename f.ext

structure Fs where
  layoutInfo : LayoutInfo
  blockcount : ℕ
  preallocatedBlockcount : ℕ
  monitorStartBlockNr : ℕ
  monitorMaxBlockCount : ℕ
  interleave : ℕ
  mfdVariety : ℕ
  bitmapUsed : ℕ → Bool
  bitmapBlockList : List LinkedBlock
  mfdBlockList : List LinkedBlock
  ufdBlockList : List LinkedBlock
  tree : FileTree File

namespace Fs

/-- The files in their order -/
def files (s : Fs) : List File := s.tree.files.map (·.file)

/-- Files with an entry in the UFD -/
def userFiles (s : Fs) : List File := s.files.filter (!·.internal)

end Fs

/-- `XXDP_UFD_ENTRIES_PER_BLOCK` -/
abbrev ufdEntriesPerBlock : ℕ := 28

/-- What a block holds behind its link word -/
abbrev blockDatasize : ℕ := blockSize - 2

/-! ## Space -/

namespace Fs

/-- The blocks of all files, and of one more -/
def neededDataBlocks (s : Fs) (dataSize : ℕ) : ℕ :=
  (s.userFiles.map fun f => neededBlocks blockDatasize f.fileSize).sum +
    neededBlocks blockDatasize dataSize

/-- UFD blocks that go beyond those of the layout, counted for one file more than there are -/
def excessUfdBlocks (s : Fs) : ℕ :=
  neededBlocks ufdEntriesPerBlock (s.files.length + 1) - s.layoutInfo.ufdBlocksNum

end Fs

/-- `layout_test()` -/
def layoutTest (dataSize : ℕ) (s : Fs) : Except Failure Unit :=
  if s.blockcount ≤ s.preallocatedBlockcount then .error (.fault .assertion)
  else if s.neededDataBlocks dataSize + s.excessUfdBlocks >
      s.blockcount - s.preallocatedBlockcount then
    .error (.exception .layoutFull)
  else .ok ()

/-! ## Host files -/

/-- `$VOLUM.INF`, the text about the volume -/
def volumeInfoName : Text × Text := (['$', 'V', 'O', 'L', 'U', 'M'], ['I', 'N', 'F'])

def bootblockName : Text × Text := (['$', 'B', 'O', 'O', 'T'], ['B', 'L', 'K'])

def monitorName : Text × Text := (['$', 'M', 'O', 'N', 'I'], ['T', 'O', 'R'])

/-- Basename and extension of the DEC file that a host name stands for -/
def decName (hostFname : Text) : Text × Text := filenameFromHost '%' hostFname

def decPath (hostFname : Text) : Text := makeFilename (decName hostFname).1 (decName hostFname).2

/-- `dos11date_adjust()` -/
def dos11dateAdjust : Tm → Tm := Tm.adjust 70

/-- Boot block and monitor lie in blocks of their own, one behind the other. -/
def isInternal (name : Text × Text) : Bool := name = bootblockName ∨ name = monitorName

def newFile (h : HostFile) (internal : Bool) : File where
  basename := (decName h.filename).1
  ext := (decName h.filename).2
  internal := internal
  isContiguousFile := internal
  readonly := false
  modificationTime := dos11dateAdjust h.modificationTime
  fileSize := h.fileSize
  startBlockNr := 0
  lastBlockNr := 0
  blockNrList := []
  blockCount := neededBlocks blockSize h.fileSize % 2 ^ 16
  data := h.data
  hostPath := h.path
  changed := false

/-- What import demands of the size of an internal file. -/
def internalSizeError (s : Fs) (name : Text × Text) (size : ℕ) : Option Error :=
  if name = bootblockName ∧ size ≠ blockSize then some .bootblockSize
  else if name = monitorName ∧ size > s.monitorMaxBlockCount * blockSize then
    some (.monitorSize size (s.monitorMaxBlockCount * blockSize))
  else none

/-- `import_host_file()` -/
def importHostFile (h : HostFile) : EStateM Failure Fs Unit := fun s =>
  let name := decName h.filename
  if ¬h.Accepted then .ok () s
  else if (s.tree.get (decPath h.filename)).isSome then .ok () s
  else if h.fileSize = 0 then .ok () s
  else
    match internalSizeError s name h.fileSize with
    | some e => .error (.exception e) s
    | none =>
      if name = volumeInfoName then .ok () s
      else
        match layoutTest (if isInternal name then 0 else h.fileSize) s with
        | .error (.exception _) => .error (.exception (.diskFull h.filename h.fileSize)) s
        | .error (.fault f) => .error (.fault f) s
        | .ok _ =>
          .ok ()
            { s with tree := s.tree.addFile (decPath h.filename) (newFile h (isInternal name)) }

/-- `delete_host_file()` -/
def deleteHostFile (hostPath : Text) (s : Fs) : Fs :=
  if directories hostPath ≠ ['/'] then s
  else
    match s.tree.get (decPath (filename hostPath)) with
    | none => s
    | some n =>
      if decName (filename hostPath) = volumeInfoName then s
      else { s with tree := s.tree.removeFile n }

/-- `consume_event()`: a change is a deletion and an import. -/
def consumeEvent (s : Fs) : HostEvent → EStateM.Result Failure Fs Unit
  | .create file => importHostFile file s
  | .modify file => importHostFile file (deleteHostFile file.path s)
  | .delete path => .ok () (deleteHostFile path s)

end QUniBone.XXDP
