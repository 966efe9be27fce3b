import QUniBone.Lib.Prog
import Mathlib.Data.BitVec
import Mathlib.Data.List.Range
import Mathlib.Data.Nat.Notation

/-!
# Image partition

`storageimage_partition_c` and `byte_buffer_c`: the blocks of an image that a file system sees. The
image is as large as the partition.

* `DriveType`: the drives.
* `Fault`: what a program must not do.
* `ByteBuffer`: bytes in memory.
* `Partition`: the blocks, `getBlocks`, `setBlocks`.
-/

namespace QUniBone.Sharedfs

/-- `drive_type_e`: the MSCP drives behind RX33 count as one. -/
inductive DriveType
  | none | TU58 | RP0456 | RK035 | RL01 | RL02 | RK067 | RP023 | RM | RS | TU56 | RX01 | RX02 | RF
  | RX50 | RX33 | MSCP
  deriving DecidableEq

/-- How a program ends that neither returns nor throws a `filesystem_exception`. -/
inductive Fault
  /-- an `assert()` that fails -/
  | assertion
  /-- `FATAL()` -/
  | fatal
  /-- `std::out_of_range`, which nobody catches -/
  | outOfRange
  /-- an access behind the end of a buffer, a table or the image -/
  | overrun
  /-- an access through a null pointer -/
  | nullPointer
  deriving DecidableEq

/-- `block_size` of both file systems -/
abbrev blockSize : ℕ := 512

/-- `needed_blocks(block_size, byte_count)` -/
def neededBlocks (size byteCount : ℕ) : ℕ := (byteCount + size - 1) / size

/-! ## Buffers -/

structure ByteBuffer where
  size : ℕ
  byte : ℕ → BitVec 8

namespace ByteBuffer

def toList (b : ByteBuffer) : List (BitVec 8) := (List.range b.size).map b.byte

/-- The two bytes at an offset, the low one first. -/
def word (b : ByteBuffer) (offset : ℕ) : ℕ :=
  (b.byte offset).toNat + 256 * (b.byte (offset + 1)).toNat

/-- `set_word_at_byte_offset()` -/
def setWord (b : ByteBuffer) (offset w : ℕ) : ByteBuffer where
  size := b.size
  byte i :=
    if i = offset then BitVec.ofNat 8 w
    else if i = offset + 1 then BitVec.ofNat 8 (w / 256)
    else b.byte i

/-- `get_word_at_byte_offset()`: the assertion is about the first of the two bytes. -/
def getWord (b : ByteBuffer) (offset : ℕ) : Except Fault ℕ :=
  if b.size ≤ offset then .error .assertion
  else if b.size ≤ offset + 1 then .error .overrun
  else .ok (b.word offset)

end ByteBuffer

/-! ## Blocks -/

structure Partition where
  blockCount : ℕ
  byte : ℕ → BitVec 8
  /-- blocks are gathered sector by sector -/
  interleaved : Bool
  /-- `changed_blocks` -/
  changedBlocks : ℕ → Bool

namespace Partition

/-- The content of consecutive blocks -/
def blocks (p : Partition) (start count : ℕ) : ByteBuffer :=
  ⟨blockSize * count, fun i => p.byte (blockSize * start + i)⟩

/-- `get_blocks()`: an image file reads into a buffer that is not empty. -/
def getBlocks (p : Partition) (start count : ℕ) : Except Fault ByteBuffer :=
  if count = 0 ∧ p.interleaved = false then .error .assertion
  else if p.blockCount < start + count then .error .overrun
  else .ok (p.blocks start count)

/-- `set_blocks()` -/
def setBlocks (p : Partition) (start : ℕ) (b : ByteBuffer) : Partition :=
  { p with
    byte := fun i =>
      if blockSize * start ≤ i ∧ i < blockSize * start + b.size then
        b.byte (i - blockSize * start)
      else p.byte i }

/-- `changed_blocks.at()` -/
def changedAt (p : Partition) (blockNr : ℕ) : Except Fault Bool :=
  if blockNr < p.blockCount then .ok (p.changedBlocks blockNr) else .error .outOfRange

/-- One of these blocks has been changed. The loop ends with the first one. -/
def anyChanged (p : Partition) : List ℕ → Except Fault Bool
  | [] => .ok false
  | nr :: nrs =>
    match p.changedAt nr with
    | .error f => .error f
    | .ok true => .ok true
    | .ok false => p.anyChanged nrs

end Partition

end QUniBone.Sharedfs
