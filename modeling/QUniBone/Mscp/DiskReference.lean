import QUniBone.Mscp.DiskTransfer

/-!
# What DoDiskTransfer should do

A disk is a row of bytes, and the RCT another. The reference says what becomes of them and of the
memory of the host, and with which status the command ends.

* `Request.Fits`: the transfer lies in the data area or is a block of the RCT.
* `Request.reference`: what should come of it.
* `Request.Meets`: the transfer compared with the reference, whatever the data are.
* `Request.Sound`: when it meets the reference.
-/

namespace QUniBone.MscpDisk

open Disk Storage

/-- The bytes, without an end -/
@[ext]
structure Data where
  image : Bytes
  rct : Bytes
  memory : ℕ → BusWord

def Contents.data (x : Contents) : Data := ⟨x.image.get, x.rct, x.memory⟩

/-- Bytes from `start` on are replaced, and zeros follow up to the end of the block. -/
def overwrite (disk : Bytes) (start length : ℕ) (bytes : Bytes) : Bytes := fun i =>
  if start ≤ i ∧ i < start + (length + blockSize - 1) / blockSize * blockSize then
    if i < start + length then bytes (i - start) else 0
  else disk i

namespace Request

variable (q : Request) (b : Bus) (d : Drive) (size : ℕ)

/-! ## Acceptance -/

/-- The blocks of the data area and of the RCT -/
def blocks : ℕ := (d.blockCount size).toNat
def rctBlocks : ℕ := d.rctBlockCount.toNat

/-- The first block is in the data area. -/
def InData : Prop := q.lbn.toNat < blocks d size

/-- Completely in the data area, or exactly one block of the RCT -/
def Fits : Prop :=
  q.InData d size ∧ q.lbn.toNat * blockSize + q.byteCount.toNat ≤ blocks d size * blockSize ∨
  ¬q.InData d size ∧ q.lbn.toNat < blocks d size + rctBlocks d ∧ q.byteCount.toNat = blockSize

instance decidableInData : Decidable (q.InData d size) := inferInstanceAs (Decidable (_ < _))

instance decidableFits : Decidable (q.Fits d size) := inferInstanceAs (Decidable (_ ∨ _))

/-! ## The data -/

/-- byte `i` of the transfer on the disk -/
def diskByte (x : Data) (i : ℕ) : Storage.Byte :=
  if q.InData d size then x.image (q.lbn.toNat * blockSize + i)
  else x.rct ((q.lbn.toNat - blocks d size) * blockSize + i)

def putBytes (bytes : Bytes) (x : Data) : Data :=
  if q.InData d size then
    { x with image := overwrite x.image (q.lbn.toNat * blockSize) q.byteCount.toNat bytes }
  else
    { x with
      rct := overwrite x.rct ((q.lbn.toNat - blocks d size) * blockSize) q.byteCount.toNat bytes }

/-- The words of memory that the bytes are in -/
def hostWords : ℕ := (q.byteCount.toNat + 1) / 2

/-- The words that the transfer reaches: up to the first that does not answer -/
def hostAnswers : ℕ := answered b.answers q.address q.hostWords

/-- The disk's bytes in memory. Of a last single byte the other half of the word stays. -/
def putHost (x : Data) : Data :=
  let bytes := q.diskByte d size x
  { x with
    memory := dato x.memory q.address (fun i =>
      wordOf (bytes (2 * i))
        (if 2 * i + 1 < q.byteCount.toNat then bytes (2 * i + 1)
          else hostByte x.memory q.address (2 * i + 1))) (q.hostAnswers b) }

/-! ## The reference -/

def referenceTransfer (x : Data) : Status × Data :=
  match q.opcode with
  | .access => (.success, x)
  | .erase => (.success, q.putBytes d size (fun _ => 0) x)
  | .compareHostData =>
    if q.hostAnswers b = q.hostWords then
      if ∀ i < q.byteCount.toNat, q.diskByte d size x i = hostByte x.memory q.address i then
        (.success, x)
      else (.compareError, x)
    else (.hostBufferAccessError, x)
  | .read =>
    (if q.hostAnswers b = q.hostWords then .success else .hostBufferAccessError,
      q.putHost b d size x)
  | .write =>
    if q.hostAnswers b = q.hostWords then
      (.success, q.putBytes d size (hostByte x.memory q.address) x)
    else (.hostBufferAccessError, x)

/-- The image has `size` bytes. -/
def reference (drive : Option Drive) (x : Data) : Status × Data :=
  match drive with
  | none => (.unitOffline, x)
  | some d =>
    if d.imageIsOpen = false then (.unitOffline, x)
    else if d.online = false then (.unitAvailable, x)
    else if q.Fits d size then q.referenceTransfer b d size x
    else (.invalidCommand, x)

/-- The transfer does what the reference says, whatever is on the disk, in the RCT and in memory. -/
def Meets (drive : Option Drive) : Prop :=
  ∀ x : Contents, x.image.size = size → ∃ r y, q.doDiskTransfer b drive x = some (r, y) ∧
    (r.status, y.data) = q.reference b size drive x.data

/-! ## The condition -/

/-- The checks of the code on block number and byte count, in 32 bits -/
def Accepts : Prop :=
  q.lbn < d.blockCount size + d.rctBlockCount ∧
  q.byteCount ≤ (d.blockCount size + d.rctBlockCount - q.lbn) * BitVec.ofNat 32 blockSize ∧
  (d.blockCount size ≤ q.lbn → q.byteCount = BitVec.ofNat 32 blockSize)

/-- The assertions on the way to memory -/
def HostOk : Prop :=
  q.byteCount.toNat % 2 = 0 ∧ q.byteCount.toNat ≠ 0 ∧ q.address < b.space ∧
    (q.address + q.byteCount.toNat) % 2 ^ 32 ≤ b.space

/-- The byte position has 32 bits. -/
def PositionOk : Prop := q.InData d size → q.lbn.toNat < 2 ^ 23

/-- The image can be written. -/
def Writable : Prop := q.InData d size → d.imageIsReadonly = false

/-- What an accepted transfer needs -/
def TransferOk : Prop :=
  match q.opcode with
  | .access => True
  | .erase => q.Writable d size ∧ (q.byteCount.toNat = 0 ∨ q.PositionOk d size)
  | .compareHostData => q.HostOk b ∧ q.hostAnswers b ≠ q.hostWords
  | .read => q.HostOk b ∧ (b.answers q.address = false ∨ q.PositionOk d size)
  | .write =>
    q.HostOk b ∧
      (q.hostAnswers b = q.hostWords → q.Writable d size ∧ q.PositionOk d size)

/-- Nothing has to be transferred, or the checks let through what fits, and the transfer can be
done. -/
def Sound (drive : Option Drive) : Prop :=
  ∀ d, drive = some d → d.imageIsOpen = true → d.online = true →
    (q.Accepts d size ↔ q.Fits d size) ∧ (q.Fits d size → q.TransferOk b d size)

end Request

end QUniBone.MscpDisk
