import QUniBone.Disk.Rl11Data

/-!
# What an RL11 transfer should do

Read, Write and Write Check move word after word until all words are moved or the next one cannot
be. The reference says what memory, the image and the registers hold after any number of words, and
at which word the transfer stops.

* `Transfer`: a command with everything that decides what comes of it.
* `Transfer.Stops`: at how many words the transfer ends. `Transfer.Result`: the machine then.
* `Transfer.Meets`: the loop does this, and a Read finds what a Write has written.
* `Transfer.Regular`: when this is so.
-/

namespace QUniBone.RL11

open Disk

/-- The functions that look for the sector in DA. -/
def Function.checksHeader : Function → Bool
  | .writeCheck | .writeData | .readData => true
  | _ => false

/-- The registers when the worker has dispatched the command, the drive in lock-on, the bus and the
data -/
structure Transfer where
  regs : Registers
  rwInit : regs.state = .rwInit
  checksHeader : regs.functionCode.checksHeader = true
  /-- bit 0 of BA cannot be written -/
  even : regs.busregBA.toNat % 2 = 0
  drive : Drive
  /-- something answers at the address -/
  answers : ℕ → Bool
  memory : ℕ → BusWord

namespace Transfer

variable (c : Config) (t : Transfer) (k : ℕ)

def start : Machine := ⟨t.regs, t.memory, t.drive⟩

/-- The loop of the command ends with the machine. -/
def Returns (m : Machine) : Prop := Loop.Returns (round c t.answers) t.start (some m)

/-! ## The words -/

/-- The number of words to transfer -/
def words : ℕ := t.regs.getMPWordcount

/-- The first sector -/
def sector : ℕ := (t.regs.busregDA &&& 0x3f).toNat

/-- DA names the track under the heads. -/
def OnTrack : Prop :=
  (t.regs.busregDA >>> 7).toNat = t.drive.cylinder ∧
    (t.regs.busregDA >>> 6 &&& 1).toNat = t.drive.head

instance decidableOnTrack : Decidable t.OnTrack := inferInstanceAs (Decidable (_ ∧ _))

def busAddress : ℕ := t.regs.getQunibusAddress + 2 * k

/-- Where the first sector begins in the image. -/
def offset : ℕ := ((2 * t.drive.cylinder + t.drive.head) * 40 + t.sector) * sectorWordcount

def diskWord : BusWord := t.drive.image (t.offset + k)

/-- The word is not the same in memory and on the disk. -/
def Differs : Prop := t.memory (t.busAddress k) ≠ t.diskWord k

instance decidableDiffers : Decidable (t.Differs k) := inferInstanceAs (Decidable (_ ≠ _))

/-! ## The end -/

/-- The word is to be transferred, if its bus address answers. -/
def Reached : Prop := k < t.words ∧ t.OnTrack ∧ t.sector + k / sectorWordcount < 40

instance decidableReached : Decidable (t.Reached k) := inferInstanceAs (Decidable (_ ∧ _ ∧ _))

/-- The transfer ends after `k` words. -/
structure Stops : Prop where
  before : ∀ j < k, t.Reached j ∧ t.answers (t.busAddress j) = true
  here : ¬(t.Reached k ∧ t.answers (t.busAddress k) = true)

/-- How many sectors are done: a part of one, unless it ends at a bus address. -/
def sectors : ℕ :=
  if t.Reached k then k / sectorWordcount else (k + 127) / sectorWordcount

/-! ## The result -/

/-- The image with `k` words of memory in `n` sectors. The rest of the last one is zero. -/
def imageAfter (n k : ℕ) : ℕ → BusWord := fun i =>
  if t.offset ≤ i ∧ i < t.offset + n * sectorWordcount then
    if i < t.offset + k then t.memory (t.busAddress (i - t.offset)) else 0
  else t.drive.image i

/-- The machine with these registers, after `n` sectors and `k` words: whatever sector passes the
heads. -/
structure Leaves (n k : ℕ) (regs : Registers) (m : Machine) : Prop where
  regs : m.regs = regs
  memory : m.memory =
    if t.regs.functionCode = .readData then dato t.memory (t.busAddress 0) t.diskWord k
    else t.memory
  image : m.drive.image =
    if t.regs.functionCode = .writeData ∧ t.drive.writeLock = false then t.imageAfter n k
    else t.drive.image
  errorWge : m.drive.errorWge =
    if t.regs.functionCode = .writeData ∧ 0 < n then t.drive.writeLock else t.drive.errorWge
  cylinder : m.drive.cylinder = t.drive.cylinder
  head : m.drive.head = t.drive.head
  writeLock : m.drive.writeLock = t.drive.writeLock

/-- BA, BAE and CS<5:4> point behind the last bus address tried, DA behind the last sector done. -/
def regsAfter : Registers :=
  { (t.regs.updateQunibusAddress (t.busAddress k + if t.Reached k then 2 else 0)).setMPWordcount
      (t.words - k) with
    busregDA := t.regs.busregDA + BitVec.ofNat 16 (t.sectors k)
    state := .controllerReady
    errorOperationIncomplete := decide (k < t.words)
    errorDmaTimeout := decide (t.Reached k)
    errorWritecheck := decide (t.regs.functionCode = .writeCheck ∧ ∃ j < k, t.Differs j)
    errorHeaderNotFound := decide (k < t.words ∧ ¬t.Reached k) }

/-- The machine when the transfer ends after `k` words -/
def Result (m : Machine) : Prop := t.Leaves (t.sectors k) k (t.regsAfter k) m

/-- A Read from the same DA, of as many words as you like, to any place, finds the words that the
Write has written. -/
def ReadBack : Prop :=
  t.regs.functionCode = .writeData → t.drive.writeLock = false →
    ∀ m, t.Returns c m → ∀ u : Transfer, u.regs.functionCode = .readData →
      u.regs.busregDA = t.regs.busregDA → u.drive.cylinder = t.drive.cylinder →
      u.drive.head = t.drive.head → u.drive.image = m.drive.image →
      ∀ m', u.Returns c m' → ∀ k l, t.Stops k → u.Stops l →
        ∀ w < k, w < t.sectors k * sectorWordcount → w < l →
          m'.memory (u.busAddress w) = t.memory (t.busAddress w)

def Meets : Prop := (∃ k m, t.Stops k ∧ t.Returns c m ∧ t.Result k m) ∧ t.ReadBack c

/-! ## When it is so -/

/-- The call that moves the words of a sector -/
def call (n : ℕ) : DmaCall where
  cycle := if t.regs.functionCode = .readData then .dato else .dati
  address := t.busAddress (n * sectorWordcount)
  wordcount := min sectorWordcount (t.words - n * sectorWordcount)
  bufferWords := sectorWordcount

/-- What Write Check sees in the last sector: a word that differs, or one behind the last word of
the transfer that is not zero. -/
def LastDiffers : Prop :=
  (∃ j < k, (t.sectors k - 1) * sectorWordcount ≤ j ∧ t.Differs j) ∨
    ∃ j < t.sectors k * sectorWordcount, k ≤ j ∧ t.diskWord j ≠ 0

/-- The request for each sector ends within the address space, only the first word of a sector has
a bus address that does not answer, and a Write Check sees in the last sector whether any word
differs. -/
structure Regular : Prop where
  space : ∀ k, t.Stops k → ∀ n, n * sectorWordcount ≤ k → t.Reached (n * sectorWordcount) →
    (t.call n).Asserted c.space
  whole : ∀ k, t.Stops k → t.Reached k → k % sectorWordcount = 0
  check : t.regs.functionCode = .writeCheck → ∀ k, t.Stops k →
    ((∃ j < k, t.Differs j) ↔ t.LastDiffers k)

end Transfer

end QUniBone.RL11
