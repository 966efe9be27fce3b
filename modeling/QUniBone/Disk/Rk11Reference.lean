import QUniBone.Disk.Rk11Transfer
import QUniBone.Disk.Rk11Space

/-!
# What an RK11 transfer should do

A transfer moves word after word until all words are moved or the next one cannot be. The reference
says what memory, the disks and the registers hold after any number of words, and at which word the
transfer stops.

* `Transfer.after`: the machine after so many words.
* `Transfer.Stops`: at how many words the transfer ends. `Transfer.result`: the machine then.
* `Transfer.Regular`: when the loop does this.
-/

namespace QUniBone.RK11

open Disk

/-- sectors of a drive -/
abbrev blockCount : ℕ := 203 * 2 * 12

/-- The address of a sector -/
def DiskAddress.ofBlock (drive block : ℕ) : DiskAddress where
  sector := block % 12
  surface := block / 12 % 2
  cyl := block / 24
  drive := drive

namespace DiskAddress

variable {a : DiskAddress}

theorem ofWord_surface (w : BitVec 16) : (ofWord w).surface ≤ 1 := by
  have hle : (w &&& 0x10).toNat ≤ 16 := by
    rw [BitVec.toNat_and]
    exact Nat.and_le_right
  show (w &&& 0x10).toNat / 2 ^ 4 ≤ 1
  omega

theorem increment_ofBlock (drive block : ℕ) :
    (ofBlock drive block).increment = ofBlock drive (block + 1) := by
  unfold increment ofBlock
  dsimp only
  split
  · split <;> rw [mk.injEq] <;> omega
  · rw [mk.injEq]
    omega

theorem ofBlock_block (h : a.Valid) (hs : a.surface ≤ 1) : ofBlock a.drive a.block = a := by
  have hsector := h.1
  cases a with
  | mk sector surface cyl drive =>
    unfold ofBlock block
    rw [mk.injEq]
    dsimp only at hs hsector ⊢
    omega

theorem block_ofBlock (drive block : ℕ) : (ofBlock drive block).block = block := by
  show (block / 24 * 2 + block / 12 % 2) * 12 + block % 12 = block
  omega

theorem ofBlock_valid {drive block : ℕ} : (ofBlock drive block).Valid ↔ block < blockCount := by
  show block % 12 ≤ 11 ∧ block / 24 ≤ 202 ↔ block < 4872
  omega

theorem block_lt_blockCount (h : a.Valid) (hs : a.surface ≤ 1) : a.block < blockCount := by
  have hsector := h.1
  have hcyl := h.2
  show (a.cyl * 2 + a.surface) * 12 + a.sector < 4872
  omega

end DiskAddress

namespace Transfer

variable {c : Config} (t : Transfer c) (e : Errors) (k : ℕ)

/-! ## The words -/

/-- The number of words to transfer -/
def words : ℕ := 2 ^ 16 - t.rkwc.toNat

/-- The words of a sector that are transferred: Read Format takes its header only. -/
def unit : ℕ := if t.cmd.function = .read ∧ t.cmd.format = true then 1 else sectorWords

/-- The first sector -/
def first : DiskAddress := .ofWord t.rkda

def busAddress : ℕ := if t.cmd.iba then t.cmd.address else t.cmd.address + 2 * k

def diskWord : BusWord := t.disks t.first.drive (t.first.block * sectorWords + k)

/-- What Read transfers: the data of the sectors, or their cylinder addresses -/
def readWord : BusWord :=
  if t.cmd.format then BitVec.ofNat 16 ((t.first.block + k) / 24 * 2 ^ 5) else t.diskWord k

/-! ## After some words -/

def memoryAfter : ℕ → (ℕ → BusWord)
  | 0 => t.memory
  | k + 1 => Function.update (memoryAfter k) (t.busAddress k) (t.readWord k)

/-- The image with words of memory. The rest of the last sector is zero. -/
def diskAfter : ℕ → BusWord := fun i =>
  let start := t.first.block * sectorWords
  if start ≤ i ∧ i < start + (k + 255) / sectorWords * sectorWords then
    if i < start + k then t.memory (t.busAddress (i - start)) else 0
  else t.disks t.first.drive i

/-- Some of the words are not the same in memory and on the disk. -/
def differsBefore : Bool := (List.range k).any fun i => t.memory (t.busAddress i) != t.diskWord i

def sectors : ℕ := (k + t.unit - 1) / t.unit

/-- RKDA -/
def addressAfter : DiskAddress :=
  if k = 0 then t.first else .ofBlock t.first.drive (t.first.block + t.sectors k)

def errorsAfter : Errors :=
  let wrong := decide (t.cmd.function = .writeCheck) && t.differsBefore k
  { e with wce := e.wce || wrong, err := e.err || wrong }

def after : Machine where
  regs :=
    { t.regs e with
      rkwc := t.rkwc + BitVec.ofNat 16 k
      rkba :=
        if t.cmd.iba = true ∨ k = 0 then t.rkba else BitVec.ofNat 16 (t.cmd.address + 2 * k)
      mex :=
        if t.cmd.iba = true ∨ k = 0 then (t.regs e).mex
        else (t.cmd.address + 2 * k) / 2 ^ 16 % 4
      rkda := t.addressAfter k
      errors := t.errorsAfter e k }
  rkdb := if t.cmd.function = .read ∧ 0 < k then t.readWord (k - 1) else t.rkdb
  memory := if t.cmd.function = .read then t.memoryAfter k else t.memory
  disks :=
    if t.cmd.function = .write then Function.update t.disks t.first.drive (t.diskAfter k)
    else t.disks

/-! ## The end -/

/-- Write Check found a word that differs and stops on it. -/
def CheckStops : Prop :=
  t.cmd.function = .writeCheck ∧ (t.regs .none).sse = true ∧
    t.differsBefore (k / t.unit * t.unit) = true

/-- There is a sector for the word. -/
def OnDisk : Prop :=
  t.drivePresent = true ∧ t.first.Valid ∧ t.first.block + k / t.unit < blockCount

/-- The word is to be transferred, if its bus address answers. -/
def Reached : Prop := k < t.words ∧ t.OnDisk k ∧ ¬t.CheckStops k

instance decidableCheckStops : Decidable (t.CheckStops k) := inferInstanceAs (Decidable (_ ∧ _))

instance decidableOnDisk : Decidable (t.OnDisk k) := inferInstanceAs (Decidable (_ ∧ _ ∧ _))

instance decidableReached : Decidable (t.Reached k) :=
  inferInstanceAs (Decidable (_ ∧ _ ∧ ¬_))

/-- The transfer ends after `k` words. -/
structure Stops : Prop where
  before : ∀ j < k, t.Reached j ∧ t.answers (t.busAddress j) = true
  here : ¬(t.Reached k ∧ t.answers (t.busAddress k) = true)

/-- The errors that say why it ends -/
def stopErrors : Errors :=
  let e := t.errorsAfter e k
  if t.Reached k then { e with nxm := true, he := true, err := true }
  else if k < t.words ∧ ¬t.CheckStops k then
    { e with
      nxs := e.nxs || decide ((t.addressAfter k).sector > 11)
      nxc := e.nxc || decide ((t.addressAfter k).cyl > 202)
      nxd := e.nxd || !t.drivePresent
      ovr := e.ovr || decide ((t.addressAfter k).cyl > 202)
      he := true
      err := true }
  else e

def result : Machine :=
  let m := t.after e k
  { m with regs := { m.regs with errors := t.stopErrors e k } }

/-- There are less than 2^15 words, they have bus addresses that answer, and a Write Check that
stops on errors either ends with its first sector or finds an error there. -/
structure Regular : Prop where
  count : t.words < 2 ^ 15
  answers : ∀ k, t.Reached k → t.answers (t.busAddress k) = true
  check : t.cmd.function = .writeCheck → (t.regs .none).sse = true → t.OnDisk 0 →
    t.words ≤ sectorWords ∨ t.differsBefore sectorWords = true

end Transfer

end QUniBone.RK11
