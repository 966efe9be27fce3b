import QUniBone.Disk.DmaData
import QUniBone.Lib.SparseArray
import QUniBone.Storage.Image

/-!
# DoDiskTransfer

READ, WRITE, ERASE, COMPARE HOST DATA and ACCESS of `mscp_server`, with what they move. The image
of a drive is an array of bytes without an end, which is what the image classes are for. Buffers
are functions from the index of a byte. `none` as a result is a failed assertion.

* `Drive`, `Request`, `Bus`: what decides about a transfer.
* `Contents`: the data.
* `doDiskTransfer`: the transfer.
-/

namespace QUniBone.MscpDisk

open Disk Storage

/-! ## Drives -/

/-- `GetBlockSize()` -/
def blockSize : ℕ := 512

/-- A row of `g_driveTable`, as far as transfers are concerned -/
structure DriveInfo where
  blockCount : ℕ
  rctSize : ℕ

def driveTable : List DriveInfo :=
  [⟨800, 0⟩, ⟨2400, 0⟩, ⟨21600, 36⟩, ⟨41560, 3⟩, ⟨50902, 0⟩, ⟨50902, 0⟩, ⟨60480, 4⟩, ⟨83236, 4⟩,
    ⟨138672, 5⟩, ⟨237212, 0⟩, ⟨311200, 7⟩, ⟨400176, 1008⟩, ⟨547041, 198⟩, ⟨891072, 2856⟩,
    ⟨1216665, 3420⟩, ⟨1367310, 1428⟩, ⟨1953300, 2040⟩, ⟨2376153, 1794⟩, ⟨2940951, 949⟩,
    ⟨3920490, 198⟩]

structure Drive where
  driveInfo : DriveInfo
  mem_driveTable : driveInfo ∈ driveTable
  useImageSize : Bool
  online : Bool
  imageIsOpen : Bool
  imageIsReadonly : Bool

namespace Drive

/-- `GetBlockCount()`, with an image of so many bytes -/
def blockCount (d : Drive) (size : ℕ) : BitVec 32 :=
  if d.useImageSize then BitVec.ofNat 32 (size / blockSize)
  else BitVec.ofNat 32 d.driveInfo.blockCount

/-- `GetRCTBlockCount()`. There is one copy. -/
def rctBlockCount (d : Drive) : BitVec 32 := BitVec.ofNat 32 d.driveInfo.rctSize

end Drive

/-! ## Requests and data -/

inductive Opcode
  | access
  | compareHostData
  | erase
  | read
  | write

/-- `ReadWriteEraseParameters` -/
structure Request where
  opcode : Opcode
  byteCount : BitVec 32
  bufferPhysicalAddress : BitVec 32
  lbn : BitVec 32

/-- the address on the bus -/
def Request.address (q : Request) : ℕ := (q.bufferPhysicalAddress &&& 0x00ffffff).toNat

structure Bus where
  /-- `addr_space_byte_count` -/
  space : ℕ
  answers : ℕ → Bool
  answers_inSpace : ∀ a, answers a = true → a + 2 ≤ space

structure Contents where
  image : SparseArray Storage.Byte
  /-- `_rctData` -/
  rct : ℕ → Storage.Byte
  memory : ℕ → BusWord

/-- A byte buffer -/
abbrev Bytes := ℕ → Storage.Byte

inductive Status
  | success
  | invalidCommand
  | unitOffline
  | unitAvailable
  | compareError
  | hostBufferAccessError

/-- The response as far as it is set here -/
structure Response where
  messageLength : ℕ
  lbn : BitVec 32
  status : Status
  subcode : ℕ

/-! ## DMA -/

/-- Bytes of words, the low one first -/
def byteOf (w : BusWord) (i : ℕ) : Storage.Byte :=
  if i % 2 = 0 then w.extractLsb' 0 8 else w.extractLsb' 8 8

def wordOf (low high : Storage.Byte) : BusWord := high ++ low

/-- What memory holds for byte `i` of a buffer -/
def hostByte (memory : ℕ → BusWord) (address i : ℕ) : Storage.Byte :=
  byteOf (memory (address + 2 * (i / 2))) i

/-- `DMARead`. A timeout gives no buffer. -/
def dmaRead (b : Bus) (memory : ℕ → BusWord) (address length : ℕ) : Option (Option Bytes) :=
  if length % 2 = 0 ∧ address < b.space then
    if (DmaCall.mk .dati address (length / 2) (length / 2)).Asserted b.space then
      if answered b.answers address (length / 2) = length / 2 then
        some (some (hostByte memory address))
      else some none
    else none
  else none

/-- `DMAWrite`: success, and memory after it -/
def dmaWrite (b : Bus) (memory : ℕ → BusWord) (address length : ℕ) (buffer : Bytes) :
    Option (Bool × (ℕ → BusWord)) :=
  if length % 2 = 0 ∧ address < b.space then
    if (DmaCall.mk .dato address (length / 2) (length / 2)).Asserted b.space then
      let n := answered b.answers address (length / 2)
      some (decide (n = length / 2),
        dato memory address (fun i => wordOf (buffer (2 * i)) (buffer (2 * i + 1))) n)
    else none
  else none

/-! ## The drive -/

/-- The first bytes of a buffer -/
def Bytes.toList (buffer : Bytes) (length : ℕ) : List Storage.Byte :=
  (List.range length).map buffer

/-- `image_read` -/
def imageRead (image : SparseArray Storage.Byte) (position length : ℕ) : Option Bytes :=
  if length = 0 then none else some fun i => image.get (position + i)

/-- `image_write` -/
def imageWrite (d : Drive) (image : SparseArray Storage.Byte) (position : ℕ)
    (data : List Storage.Byte) : Option (SparseArray Storage.Byte) :=
  if d.imageIsReadonly then none else some (image.put position data)

/-- `image_clear_remaining_block_bytes` -/
def imageClearRemainingBlockBytes (d : Drive) (image : SparseArray Storage.Byte)
    (position length : ℕ) : Option (SparseArray Storage.Byte) :=
  let unusedStart := position + length
  let unusedEnd := (unusedStart + blockSize - 1) / blockSize * blockSize
  if 0 < unusedEnd - unusedStart then
    imageWrite d image unusedStart (List.replicate (unusedEnd - unusedStart) 0)
  else some image

namespace Drive

/-- `blockNumber * GetBlockSize()` -/
def position (lbn : BitVec 32) : ℕ := (lbn * BitVec.ofNat 32 blockSize).toNat

/-- `Read` -/
def read (lbn : BitVec 32) (length : ℕ) (x : Contents) : Option Bytes :=
  imageRead x.image (position lbn) length

/-- `Write` -/
def write (d : Drive) (lbn : BitVec 32) (length : ℕ) (buffer : Bytes) (x : Contents) :
    Option Contents :=
  (imageWrite d x.image (position lbn) (buffer.toList length)).bind fun image =>
    (imageClearRemainingBlockBytes d image (position lbn) length).map fun image =>
      { x with image := image }

/-- `ReadRCTBlock` -/
def readRCTBlock (d : Drive) (block : BitVec 32) (x : Contents) : Option Bytes :=
  if block < d.rctBlockCount then some fun i => x.rct (block.toNat * blockSize + i) else none

/-- `WriteRCTBlock` -/
def writeRCTBlock (d : Drive) (block : BitVec 32) (buffer : Bytes) (x : Contents) :
    Option Contents :=
  if block < d.rctBlockCount then
    let start := block.toNat * blockSize
    some { x with rct := fun i =>
      if start ≤ i ∧ i < start + blockSize then buffer (i - start) else x.rct i }
  else none

end Drive

/-! ## The transfer -/

namespace Request

variable (q : Request) (b : Bus) (d : Drive)

/-- `HEADER_SIZE` and the size of the parameters -/
def messageLength : ℕ := 12 + 20

def respond (status : Status) (subcode : ℕ) (x : Contents) : Option (Response × Contents) :=
  some (⟨messageLength, q.lbn, status, subcode⟩, x)

/-- The end of `DoDiskTransfer`: LBN is set to 0. -/
def succeed (x : Contents) : Option (Response × Contents) :=
  some (⟨messageLength, 0, .success, 0⟩, x)

/-- the subcode for NXM -/
def nxm : ℕ := 3

/-- From the RCT or from the image -/
def fetch (x : Contents) : Option Bytes :=
  let blockCount := d.blockCount x.image.size
  if blockCount ≤ q.lbn then d.readRCTBlock (q.lbn - blockCount) x
  else Drive.read q.lbn q.byteCount.toNat x

/-- To the RCT or to the image -/
def store (buffer : Bytes) (x : Contents) : Option Contents :=
  let blockCount := d.blockCount x.image.size
  if blockCount ≤ q.lbn then d.writeRCTBlock (q.lbn - blockCount) buffer x
  else d.write q.lbn q.byteCount.toNat buffer x

/-- ERASE -/
def eraseData (x : Contents) : Option (Response × Contents) :=
  (q.store d (fun _ => 0) x).bind succeed

/-- COMPARE HOST DATA. ERASE follows in the switch. -/
def compareHostData (x : Contents) : Option (Response × Contents) :=
  (q.fetch d x).bind fun diskBuffer =>
    (dmaRead b x.memory q.address q.byteCount.toNat).bind fun
      | none => q.respond .hostBufferAccessError nxm x
      | some memBuffer =>
        if ∀ i < q.byteCount.toNat, diskBuffer i = memBuffer i then q.respond .compareError 0 x
        else q.eraseData d x

/-- READ -/
def readData (x : Contents) : Option (Response × Contents) :=
  (q.fetch d x).bind fun diskBuffer =>
    (dmaWrite b x.memory q.address q.byteCount.toNat diskBuffer).bind fun r =>
      let y := { x with memory := r.2 }
      if r.1 then succeed y else q.respond .hostBufferAccessError nxm y

/-- WRITE -/
def writeData (x : Contents) : Option (Response × Contents) :=
  (dmaRead b x.memory q.address q.byteCount.toNat).bind fun
    | none => q.respond .hostBufferAccessError nxm x
    | some memBuffer => (q.store d memBuffer x).bind succeed

/-- The switch -/
def transfer (x : Contents) : Option (Response × Contents) :=
  match q.opcode with
  | .access => succeed x
  | .compareHostData => q.compareHostData b d x
  | .erase => q.eraseData d x
  | .read => q.readData b d x
  | .write => q.writeData b d x

/-- `offsetof` LBN and ByteCount in the message -/
def lbnOffset : ℕ := 16 + 4
def byteCountOffset : ℕ := 0 + 4

/-- `DoDiskTransfer` -/
def doDiskTransfer (drive : Option Drive) (x : Contents) : Option (Response × Contents) :=
  match drive with
  | none => q.respond .unitOffline 0 x
  | some d =>
    if d.imageIsOpen = false then q.respond .unitOffline 0 x
    else if d.online = false then q.respond .unitAvailable 0 x
    else
      let blockCount := d.blockCount x.image.size
      if blockCount + d.rctBlockCount ≤ q.lbn then q.respond .invalidCommand lbnOffset x
      else if (blockCount + d.rctBlockCount - q.lbn) * BitVec.ofNat 32 blockSize < q.byteCount then
        q.respond .invalidCommand byteCountOffset x
      else if blockCount ≤ q.lbn ∧ q.byteCount ≠ BitVec.ofNat 32 blockSize then
        q.respond .invalidCommand byteCountOffset x
      else q.transfer b d x

end Request

end QUniBone.MscpDisk
