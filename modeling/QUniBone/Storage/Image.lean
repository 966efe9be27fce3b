import QUniBone.Lib.Fstream
import QUniBone.Lib.Loop
import QUniBone.Cpu.Core
import Mathlib.Data.BitVec

/-!
# Storage images

`storageimage.cpp`: the content of an emulated drive, in a file of the host or in memory.

* `Op`, `Result`: the operations and what they return.
* `Binfile.apply`: `storageimage_binfile_c`, a file of the host behind an `fstream`.
* `Memory`, `Memory.apply`: `storageimage_memory_c`, a block of memory.
-/

namespace QUniBone.Storage

/-- `uint8_t` -/
abbrev Byte := BitVec 8

/-- The operations. What an allocated block of memory contains is given with `open`. -/
inductive Op
  | open (garbage : ℕ → Byte)
  | write (position : BitVec 64) (data : List Byte)
  | read (position : BitVec 64) (len : BitVec 32)
  | truncate
  | getBytes (position : BitVec 64) (len : BitVec 32)
  | size

/-- What they return. -/
inductive Result
  | done
  | bytes (data : List Byte)
  | size (n : BitVec 64)
  deriving DecidableEq

/-! ## Image file

The image is the file with its stream, open and writable. -/

namespace Binfile

/-- `max_chunk_size` -/
def maxChunkSize : ℤ := 0x40000

/-- `(int)` of an `int64_t` -/
def toInt32 (n : ℤ) : ℤ := n.bmod (2 ^ 32)

/-- A round of the loop in `write` that fills the file up to `writePos`. It stops with
`file_size`. -/
def fillRound (writePos : ℤ) : Fstream Byte × ℤ →
    (Fstream Byte × ℤ) ⊕ (Fstream Byte × ℤ)
  | (f, fileSize) =>
    if writePos ≤ fileSize then .inl (f, fileSize)
    else
      let chunkSize := min maxChunkSize (toInt32 (writePos - fileSize))
      let f := f.clear.seekp fileSize
      let f := f.write (List.replicate chunkSize.toNat 0)
      .inr (f, fileSize + chunkSize)

/-- `write`, when the loop takes at most `fuel` rounds. `none` where an assertion fails. -/
def write (fuel : ℕ) (f : Fstream Byte) (position : BitVec 64) (data : List Byte) : Option (Fstream Byte) :=
  let writePos := position.toInt
  let f := f.clear.seekpEnd
  let fileSize := if f.tellp < 0 then 0 else f.tellp
  (Loop.run (fillRound writePos) fuel (f, fileSize)).bind fun (f, fileSize) =>
    if fileSize = 0 then
      if writePos = 0 then some (f.write data) else none
    else
      let f := f.clear.seekp writePos
      if f.tellp = writePos then some (f.write data) else none

/-- `read`: the buffer is cleared, then overwritten as far as the file reaches. -/
def read (f : Fstream Byte) (position : BitVec 64) (len : ℕ) : Option (List Byte × Fstream Byte) :=
  if len = 0 then none
  else
    let (data, f) := (f.seekg position.toInt).read len
    some (data ++ List.replicate (len - data.length) 0, f)

/-- `size`: `tellp` at the end, as an unsigned number. -/
def size (f : Fstream Byte) : BitVec 64 × Fstream Byte :=
  let f := f.seekpEnd
  (BitVec.ofInt 64 f.tellp, f)

/-- An operation on the open image. `open` opens the same file again. -/
def apply (fuel : ℕ) (f : Fstream Byte) : Op → Option (Result × Fstream Byte)
  | .open _ => some (.done, .openAte f.file)
  | .write position data => (write fuel f position data).map fun f => (.done, f)
  | .read position len => (read f position len.toNat).map fun (data, f) => (.bytes data, f)
  | .truncate => some (.done, .openTrunc)
  | .getBytes position len => (read f position len.toNat).map fun (data, f) => (.bytes data, f)
  | .size => some (.size (size f).1, (size f).2)

end Binfile

/-! ## Image in memory -/

/-- A block on the heap. -/
structure Block where
  capacity : ℕ
  byte : ℕ → Byte

namespace Block

/-- `memcpy` out of the block. Nothing is said about what lies behind it. -/
def load (b : Block) (pos len : ℕ) : Option (List Byte) :=
  if pos + len ≤ b.capacity then some ((List.range len).map fun i => b.byte (pos + i)) else none

/-- `memcpy` into the block. -/
def store (b : Block) (pos : ℕ) (data : List Byte) : Option Block :=
  if pos + data.length ≤ b.capacity then
    some { b with byte := fun i =>
      if pos ≤ i then (data[i - pos]?).getD (b.byte i) else b.byte i }
  else none

/-- `realloc`: the beginning is kept, more room is not initialized. -/
def realloc (b : Block) (size : ℕ) : Block := { b with capacity := size }

end Block

/-- `storageimage_memory_c`, open. `nullptr` is an empty block. -/
structure Memory where
  data : Block
  dataSize : BitVec 64

namespace Memory

/-- `malloc(data_size)` in `open` -/
def malloc (dataSize : BitVec 64) (garbage : ℕ → Byte) : Block := ⟨dataSize.toNat, garbage⟩

/-- After `open` of a new image. -/
def opened (capacity : BitVec 32) (garbage : ℕ → Byte) : Memory where
  data := malloc (capacity.setWidth 64) garbage
  dataSize := capacity.setWidth 64

/-- `open` of the open image: it is closed first. -/
def reopen (m : Memory) (garbage : ℕ → Byte) : Memory :=
  { m with data := malloc m.dataSize garbage }

/-- `truncate` -/
def truncate (m : Memory) : Memory := { m with data := ⟨0, m.data.byte⟩, dataSize := 0 }

/-- `write`. The block is reallocated with the old size. -/
def write (m : Memory) (position : BitVec 64) (data : List Byte) : Option Memory :=
  let newSize := position + BitVec.ofNat 64 data.length - 1
  let m :=
    if m.dataSize < newSize then
      { m with data := m.data.realloc m.dataSize.toNat, dataSize := newSize }
    else m
  (m.data.store position.toNat data).map fun block => { m with data := block }

/-- `read`: what lies behind `data_size` is filled up with zeros. -/
def read (m : Memory) (position : BitVec 64) (len : ℕ) : Option (List Byte) :=
  if len = 0 then none
  else if position < m.dataSize then
    let stopPos := position + BitVec.ofNat 64 len
    let copied := if stopPos ≤ m.dataSize then len else (m.dataSize - position).toNat
    (m.data.load position.toNat copied).bind fun data =>
      if copied ≤ len then some (data ++ List.replicate (len - copied) 0) else none
  else some (List.replicate len 0)

/-- `get_bytes`: the bytes have to be inside. -/
def getBytes (m : Memory) (position : BitVec 64) (len : ℕ) : Option (List Byte) :=
  if position < m.dataSize ∧ position.toNat + len ≤ m.dataSize.toNat then
    m.data.load position.toNat len
  else none

def apply (m : Memory) : Op → Option (Result × Memory)
  | .open garbage => some (.done, m.reopen garbage)
  | .write position data => (m.write position data).map fun m => (.done, m)
  | .read position len => (m.read position len.toNat).map fun data => (.bytes data, m)
  | .truncate => some (.done, m.truncate)
  | .getBytes position len => (m.getBytes position len.toNat).map fun data => (.bytes data, m)
  | .size => some (.size m.dataSize, m)

end Memory

end QUniBone.Storage
