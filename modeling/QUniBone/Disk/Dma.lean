import Mathlib.Data.BitVec
import Mathlib.Tactic.Common

/-!
# DMA calls of the disk controllers

What the controllers ask of `qunibusadapter_c::DMA()`, and what they did, newest first.

* `DmaCall`: the arguments. `Asserted` is what `DMA()` checks, `InSpace` what it relies on.
* `DmaRequest`: `dma_request_c`, as far as its owner reads it.
* `Event`: what became of a command, told by its worker.
-/

namespace QUniBone.Disk

abbrev BusWord := BitVec 16

inductive Cycle
  | dati
  | dato
  deriving DecidableEq

structure DmaCall where
  cycle : Cycle
  /-- `unibus_addr` -/
  address : ℕ
  wordcount : ℕ
  /-- the size of what `buffer` points to -/
  bufferWords : ℕ
  deriving DecidableEq

namespace DmaCall

/-- The assertions on the arguments. The sum is one of 32 bits. -/
def Asserted (space : ℕ) (c : DmaCall) : Prop :=
  0 < c.wordcount ∧ (c.address + 2 * c.wordcount) % 2 ^ 32 ≤ space

instance decidableAsserted (space : ℕ) (c : DmaCall) : Decidable (c.Asserted space) :=
  inferInstanceAs (Decidable (_ ∧ _))

structure InSpace (space : ℕ) (c : DmaCall) : Prop where
  one_le_wordcount : 1 ≤ c.wordcount
  end_le : c.address + 2 * c.wordcount ≤ space
  buffer_holds : c.wordcount ≤ c.bufferWords

theorem inSpace_iff {space : ℕ} {c : DmaCall} :
    c.InSpace space ↔ 1 ≤ c.wordcount ∧ c.address + 2 * c.wordcount ≤ space ∧
      c.wordcount ≤ c.bufferWords :=
  ⟨fun h => ⟨h.one_le_wordcount, h.end_le, h.buffer_holds⟩, fun h => ⟨h.1, h.2.1, h.2.2⟩⟩

instance decidableInSpace (space : ℕ) (c : DmaCall) : Decidable (c.InSpace space) :=
  decidable_of_iff _ inSpace_iff.symm

theorem InSpace.asserted {space : ℕ} {c : DmaCall} (h : c.InSpace space) :
    c.Asserted space := by
  have hpos := h.one_le_wordcount
  have hmod := Nat.mod_le (c.address + 2 * c.wordcount) (2 ^ 32)
  have hend := h.end_le
  exact ⟨by omega, by omega⟩

/-- `cur_addr` after `n` words: the last address, or the one that did not answer -/
def endAddress (c : DmaCall) (n : ℕ) : ℕ :=
  if n = c.wordcount then c.address + 2 * (n - 1) else c.address + 2 * n

end DmaCall

structure DmaRequest where
  success : Bool
  /-- `qunibus_end_addr` -/
  endAddr : ℕ

/-- `DMA()` has entered the request into the tables. -/
def DmaRequest.scheduled : DmaRequest := ⟨false, 0⟩

/-- `n` of the words of `c` were transferred. -/
def DmaRequest.completed (c : DmaCall) (n : ℕ) : DmaRequest :=
  ⟨decide (n = c.wordcount), c.endAddress n⟩

/-- `requests_cancel_scheduled()` -/
def DmaRequest.cancelled (r : DmaRequest) : DmaRequest := { r with success := false }

/-! ## What happened -/

/-- A command, as it was when GO was set. -/
structure Command where
  id : ℕ
  unit : ℕ
  /-- the first sector addressed -/
  sector : ℕ
  address : ℕ
  wordcount : ℕ
  /-- the address does not advance, and one word fills the buffer (IBA of the RK11) -/
  inhibit : Bool
  deriving DecidableEq

/-- The words of a buffer that is cleared before `ws` are put in. -/
def filled (size : ℕ) (ws : List BusWord) : List BusWord :=
  ws ++ List.replicate (size - ws.length) 0

/-- A sector is written to the image. `source` is the memory it was transferred from, if it was
transferred at all. -/
structure SectorWrite where
  unit : ℕ
  sector : ℕ
  words : List BusWord
  source : Option (ℕ × List BusWord)
  deriving DecidableEq

inductive Event
  | started (c : Command)
  | called (d : DmaCall)
  /-- `DMA()` has returned. Did the controller read success, and was the transfer complete? -/
  | returned (reported complete : Bool)
  | stored (c : Command) (w : SectorWrite)
  /-- `INTR()` -/
  | raised (c : Command)
  /-- the worker changes registers -/
  | updated (c : Command)
  | reset
  /-- an assertion fails -/
  | failed
  deriving DecidableEq

/-- All calls are sound and no assertion has failed. -/
structure CallsInSpace (space : ℕ) (history : List Event) : Prop where
  inSpace : ∀ d, .called d ∈ history → d.InSpace space
  noFailure : .failed ∉ history

theorem callsInSpace_nil (space : ℕ) : CallsInSpace space [] :=
  ⟨fun _ h => absurd h List.not_mem_nil, List.not_mem_nil⟩

/-- An event that is neither a call nor a failure. -/
def Event.Harmless : Event → Prop
  | .called _ => False
  | .failed => False
  | _ => True

namespace CallsInSpace

variable {space : ℕ} {history : List Event} {e : Event}

theorem cons (h : CallsInSpace space history) (he : e.Harmless) :
    CallsInSpace space (e :: history) where
  inSpace := by
    intro d hd
    cases hd with
    | head => exact he.elim
    | tail _ hd => exact h.inSpace d hd
  noFailure := by
    intro hf
    cases hf with
    | head => exact he
    | tail _ hf => exact h.noFailure hf

theorem call {d : DmaCall} (h : CallsInSpace space history) (hd : d.InSpace space) :
    CallsInSpace space (.called d :: history) where
  inSpace := by
    intro d' hd'
    cases hd' with
    | head => exact hd
    | tail _ hd' => exact h.inSpace d' hd'
  noFailure := by
    intro hf
    cases hf with
    | tail _ hf => exact h.noFailure hf

end CallsInSpace

end QUniBone.Disk
