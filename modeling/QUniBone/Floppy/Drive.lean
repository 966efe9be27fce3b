import Mathlib.Data.BitVec
import Mathlib.Logic.Function.Basic

/-!
# Sectors of the RX01/RX02 drive

`rx0102drive.cpp`: `sector_read()` and `sector_write()` of one drive. The bytes of a sector are in
the image. Its deleted-data mark is in a table of the drive, as the format of the image has no
place for it.

* `Drive`, `Call`, `step`, `run`: the drive. Each call also tells what it accesses.
* `Floppy`: what a floppy is for, a sector for each address.
* `Meets`: the drive does what a floppy should, and touches nothing else.
-/

namespace QUniBone.RX0102Drive

/-- `uint8_t` -/
abbrev Byte := BitVec 8

/-- `cylinder_count_const` -/
def cylinderCount : ℕ := 77

/-- `sector_count_const` -/
def sectorCount : ℕ := 26

structure Drive where
  doubleDensity : Bool
  /-- the image contains track 0 -/
  imagetrack0 : Bool
  imageIsOpen : Bool
  imageIsReadonly : Bool
  /-- the bytes of the image, zero behind its end -/
  image : ℕ → Byte
  /-- the memory from `deleted_data_marks` on. Behind the rows of the table other data of the drive
  follow. -/
  memory : ℕ → Bool
  errorIllegalTrack : Bool
  errorIllegalSector : Bool

inductive Access
  | image (offset len : ℕ)
  /-- an element of `deleted_data_marks` -/
  | mark (index : ℕ)

inductive Call
  | read (track sector : ℕ)
  | write (track sector : ℕ) (buffer : ℕ → Byte) (mark : Bool)

inductive Result
  /-- `false` -/
  | refused
  /-- a sector is written -/
  | done
  | sector (data : List Byte) (mark : Bool)

namespace Drive

/-- `geometry.sector_size_bytes` -/
def sectorSizeBytes (d : Drive) : ℕ := if d.doubleDensity then 256 else 128

/-- `deleted_data_marks[track][sector]`, counted from the begin of the table -/
def markIndex (track sector : ℕ) : ℕ := track * sectorCount + sector

/-- `get_sector_image_offset()` -/
def getSectorImageOffset (d : Drive) (track sector : ℕ) : ℕ :=
  (track * sectorCount + (sector - 1)) * d.sectorSizeBytes

/-- `check_disk_address()`: the flags, and whether none is set -/
def checkDiskAddress (d : Drive) (track sector : ℕ) : Bool × Drive :=
  let illegalTrack := decide (track ≥ cylinderCount)
  let illegalSector := decide (sector < 1 ∨ sector > sectorCount)
  (!illegalTrack && !illegalSector,
    { d with errorIllegalTrack := illegalTrack, errorIllegalSector := illegalSector })

/-- `image_read()` -/
def imageRead (d : Drive) (offset : ℕ) : List Byte :=
  (List.range d.sectorSizeBytes).map fun i => d.image (offset + i)

/-- `image_write()` -/
def imageWrite (d : Drive) (buffer : ℕ → Byte) (offset : ℕ) : Drive :=
  { d with image := fun i =>
      if offset ≤ i ∧ i < offset + d.sectorSizeBytes then buffer (i - offset) else d.image i }

def sectorRead (d : Drive) (track sector : ℕ) : Result × Drive × List Access :=
  let (legal, d) := d.checkDiskAddress track sector
  if legal = false then (.refused, d, [])
  else if d.imageIsOpen = false then (.refused, d, [])
  else
    let index := markIndex track sector
    let mark := d.memory index
    if d.imagetrack0 = false ∧ track = 0 then
      (.sector (List.replicate d.sectorSizeBytes 0) mark, d, [.mark index])
    else
      -- an image without track 0 begins with track 1
      let track := if d.imagetrack0 then track else track - 1
      let offset := d.getSectorImageOffset track sector
      (.sector (d.imageRead offset) mark, d, [.mark index, .image offset d.sectorSizeBytes])

def sectorWrite (d : Drive) (buffer : ℕ → Byte) (mark : Bool) (track sector : ℕ) :
    Result × Drive × List Access :=
  let (legal, d) := d.checkDiskAddress track sector
  if legal = false then (.refused, d, [])
  else if d.imageIsOpen = false then (.refused, d, [])
  else if d.imageIsReadonly then (.done, d, [])
  else
    let index := markIndex track sector
    let d := { d with memory := Function.update d.memory index mark }
    if d.imagetrack0 = false ∧ track = 0 then (.done, d, [.mark index])
    else
      let track := if d.imagetrack0 then track else track - 1
      let offset := d.getSectorImageOffset track sector
      (.done, d.imageWrite buffer offset, [.mark index, .image offset d.sectorSizeBytes])

def step (d : Drive) : Call → Result × Drive × List Access
  | .read track sector => d.sectorRead track sector
  | .write track sector buffer mark => d.sectorWrite buffer mark track sector

/-- The calls one after the other: results, drive and accesses -/
def run (d : Drive) : List Call → List Result × Drive × List Access
  | [] => ([], d, [])
  | c :: cs =>
    let (result, d, accesses) := d.step c
    let (results, d, more) := d.run cs
    (result :: results, d, accesses ++ more)

end Drive

/-! ## Floppies -/

structure Sector where
  data : List Byte
  mark : Bool

/-- A sector for each track and sector number -/
abbrev Floppy := ℕ → ℕ → Sector

/-- The sectors that a floppy has -/
def Valid (track sector : ℕ) : Prop :=
  track < cylinderCount ∧ 1 ≤ sector ∧ sector ≤ sectorCount

instance decidableValid (track sector : ℕ) : Decidable (Valid track sector) :=
  inferInstanceAs (Decidable (_ ∧ _ ∧ _))

namespace Floppy

/-- The floppy with another sector in one place -/
def put (f : Floppy) (track sector : ℕ) (s : Sector) : Floppy := fun track' sector' =>
  if track' = track ∧ sector' = sector then s else f track' sector'

/-- What a call should do. `stored`: what is kept of the bytes for a track. -/
def step (stored : ℕ → (ℕ → Byte) → List Byte) (f : Floppy) : Call → Result × Floppy
  | .read track sector =>
    if Valid track sector then (.sector (f track sector).data (f track sector).mark, f)
    else (.refused, f)
  | .write track sector buffer mark =>
    if Valid track sector then (.done, f.put track sector ⟨stored track buffer, mark⟩)
    else (.refused, f)

def run (stored : ℕ → (ℕ → Byte) → List Byte) (f : Floppy) : List Call → List Result × Floppy
  | [] => ([], f)
  | c :: cs =>
    let (result, f) := f.step stored c
    let (results, f) := f.run stored cs
    (result :: results, f)

end Floppy

namespace Drive

variable (d : Drive)

/-- The bytes of a sector. Of a track 0 that the image does not contain nothing is kept. -/
def stored (track : ℕ) (buffer : ℕ → Byte) : List Byte :=
  if d.imagetrack0 = false ∧ track = 0 then List.replicate d.sectorSizeBytes 0
  else (List.range d.sectorSizeBytes).map buffer

/-- The track, counted from the begin of the image -/
def imageTrack (track : ℕ) : ℕ := if d.imagetrack0 then track else track - 1

/-- The floppy in the drive -/
def floppy : Floppy := fun track sector =>
  { data := d.stored track fun i =>
      d.image (d.getSectorImageOffset (d.imageTrack track) sector + i)
    mark := d.memory (markIndex track sector) }

/-- The access is one to the sectors of the image or to the table of marks. -/
def Inside : Access → Prop
  | .image offset len => offset + len ≤ cylinderCount * sectorCount * d.sectorSizeBytes
  | .mark index => index < cylinderCount * sectorCount

/-- What is neither a sector nor a mark is as before. -/
structure Frame (d' : Drive) : Prop where
  image : ∀ i, cylinderCount * sectorCount * d.sectorSizeBytes ≤ i → d'.image i = d.image i
  memory : ∀ i, cylinderCount * sectorCount ≤ i → d'.memory i = d.memory i
  doubleDensity : d'.doubleDensity = d.doubleDensity
  imagetrack0 : d'.imagetrack0 = d.imagetrack0
  imageIsOpen : d'.imageIsOpen = d.imageIsOpen
  imageIsReadonly : d'.imageIsReadonly = d.imageIsReadonly

/-- Every call does what it should do to the floppy, no access is outside, and the rest of the drive
stays as it is. -/
structure Meets (calls : List Call) : Prop where
  results : (d.run calls).1 = (d.floppy.run d.stored calls).1
  floppy : ∀ track sector, Valid track sector →
    (d.run calls).2.1.floppy track sector = (d.floppy.run d.stored calls).2 track sector
  inside : ∀ a ∈ (d.run calls).2.2, d.Inside a
  frame : d.Frame (d.run calls).2.1

/-- There is an image that can be written. -/
def Writable : Prop := d.imageIsOpen = true ∧ d.imageIsReadonly = false

end Drive

/-- The call is about the last sector of the last track. -/
def Call.Last : Call → Prop
  | .read track sector | .write track sector _ _ => track = 76 ∧ sector = 26

end QUniBone.RX0102Drive
