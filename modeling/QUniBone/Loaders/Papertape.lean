import QUniBone.Loaders.MemoryImage

/-!
# The loader for paper tapes

`load_papertape` in `memoryimage.cpp`. The file is read character by character; `fgetc` returns
-1 behind the last one, and the loop takes that for a character, too.

* `Phase`, `Loader`: the variables of the loop.
* `step`: one character.
* `loadPapertape`: the file.
-/

namespace QUniBone.Papertape

abbrev Byte := BitVec 8

/-- What `fgetc` returns: a byte, or the end of the file. -/
abbrev Character := Option Byte

namespace Character

def int : Character → ℤ
  | some b => b.toNat
  | none => -1

def byte : Character → Byte
  | some b => b
  | none => 0xff

/-- as the argument of `put_byte` -/
def word (b : Character) : BitVec 16 := BitVec.ofInt 16 (int b)

end Character

/-- `state` -/
inductive Phase
  /-- skip bytes until 0x01 is found -/
  | skip
  | one
  | countLow
  | countHigh
  | addrLow
  | addrHigh
  | data
  | checksum

structure Loader where
  image : MemoryImage
  /-- the label "entry" -/
  entry : Option ℤ
  phase : Phase
  blockByteIdx : ℤ
  blockByteSize : ℤ
  sum : Byte
  addr : ℤ

/-- How the loop is left early. -/
inductive Stop
  | checksumError (image : MemoryImage)
  | assertion

namespace Loader

/-- the loop's usual ending of a state -/
def goOn (s : Loader) (b : Character) (phase : Phase) : Loader :=
  { s with
    phase := phase
    sum := s.sum + Character.byte b
    blockByteIdx := s.blockByteIdx + 1 }

/-- The address is complete, and the byte count, too. -/
def header (s : Loader) : Loader :=
  if s.blockByteIdx > s.blockByteSize then { s with phase := .skip }
  else if s.blockByteSize - 6 = 0 then { s with entry := some s.addr, phase := .skip }
  else { s with phase := .data }

/-- A byte of the block is stored. -/
def store (s : Loader) (b : Character) : Loader :=
  let t := { s with
    image := s.image.putByte s.addr.toNat (Character.word b)
    addr := s.addr + 1 }.goOn b .data
  if t.blockByteIdx ≥ t.blockByteSize then { t with phase := .checksum } else t

end Loader

/-- One round of the loop. In `low | high << 8` the bits do not overlap. -/
def step (s : Loader) (b : Character) : Except Stop Loader :=
  match s.phase with
  | .skip =>
    if b = some 1 then .ok { s with phase := .one, blockByteIdx := 1, sum := 1 }
    else .ok { s with sum := 0 }
  | .one => if b ≠ some 0 then .ok { s with phase := .skip } else .ok (s.goOn b .countLow)
  | .countLow => .ok ({ s with blockByteSize := Character.int b }.goOn b .countHigh)
  | .countHigh =>
    .ok ({ s with blockByteSize := s.blockByteSize + Character.int b * 2 ^ 8 }.goOn b .addrLow)
  | .addrLow => .ok ({ s with addr := Character.int b }.goOn b .addrHigh)
  | .addrHigh =>
    .ok ({ s with addr := s.addr + Character.int b * 2 ^ 8 }.goOn b .addrHigh).header
  | .data =>
    if 0 ≤ s.addr ∧ MemoryImage.Addressable s.addr.toNat then .ok (s.store b)
    else .error .assertion
  | .checksum =>
    if s.sum + Character.byte b ≠ 0 then .error (.checksumError s.image)
    else .ok { s with sum := 0, phase := .skip }

inductive Outcome
  | loaded (image : MemoryImage) (entry : Option ℤ)
  | refused (image : MemoryImage)
  | asserted

/-- The end of the loop, with the characters that are left. -/
def feed (s : Loader) : List Byte → Outcome
  | [] =>
    match step s none with
    | .ok t => .loaded t.image t.entry
    | .error (.checksumError image) => .refused image
    | .error .assertion => .asserted
  | b :: bs =>
    match step s (some b) with
    | .ok t => feed t bs
    | .error (.checksumError image) => .refused image
    | .error .assertion => .asserted

def Loader.initial (image : MemoryImage) : Loader where
  image := image
  entry := none
  phase := .skip
  blockByteIdx := 0
  blockByteSize := 0
  sum := 0
  addr := 0

def loadPapertape (image : MemoryImage) (tape : List Byte) : Outcome :=
  feed (.initial image) tape

end QUniBone.Papertape
