import Mathlib.Data.List.Basic
import Mathlib.Algebra.Notation.Defs
import Mathlib.Order.Lattice
import Mathlib.Tactic.Common

/-!
# Sparse arrays

An array without an end: every position has a value, from some position on all are zero. What
has not been written reads as zero.

* `SparseArray`: values and extent.
* `SparseArray.put`: a list of values written at a position.
* `SparseArray.slice`: values read from a position on.
-/

/-- Values up to an extent, and zeros behind it. -/
@[ext]
structure SparseArray (α : Type*) [Zero α] where
  get : ℕ → α
  size : ℕ
  get_of_size_le : ∀ i, size ≤ i → get i = 0

namespace SparseArray

variable {α : Type*} [Zero α]

def empty : SparseArray α := ⟨fun _ => 0, 0, fun _ _ => rfl⟩

/-- A larger extent. The gap is zero. -/
def extend (a : SparseArray α) (n : ℕ) : SparseArray α where
  get := a.get
  size := max a.size n
  get_of_size_le i h := a.get_of_size_le i (le_trans (Nat.le_max_left _ _) h)

/-- The values `data` at `pos`. -/
def put (a : SparseArray α) (pos : ℕ) (data : List α) : SparseArray α where
  get i := if pos ≤ i then (data[i - pos]?).getD (a.get i) else a.get i
  size := max a.size (pos + data.length)
  get_of_size_le i h := by
    have hold : a.get i = 0 := a.get_of_size_le i (by omega)
    have hend : data[i - pos]? = none := List.getElem?_eq_none (by omega)
    rw [hend, hold]
    simp

/-- The values of `len` positions from `pos` on. -/
def slice (a : SparseArray α) (pos len : ℕ) : List α := (List.range len).map fun i => a.get (pos + i)

variable (a : SparseArray α)

@[simp] theorem length_slice (pos len : ℕ) : (a.slice pos len).length = len := by
  simp [slice]

theorem getElem?_slice (pos len i : ℕ) :
    (a.slice pos len)[i]? = if i < len then some (a.get (pos + i)) else none := by
  by_cases h : i < len <;> simp [slice, h]

@[simp] theorem size_extend (n : ℕ) : (a.extend n).size = max a.size n := rfl

@[simp] theorem size_put (pos : ℕ) (data : List α) :
    (a.put pos data).size = max a.size (pos + data.length) := rfl

theorem extend_of_le {n : ℕ} (h : n ≤ a.size) : a.extend n = a := by
  ext
  · rfl
  · simp [h]

theorem extend_extend (m n : ℕ) : (a.extend m).extend n = a.extend (max m n) := by
  ext
  · rfl
  · simp [max_assoc]

/-- Zeros appended are a larger extent. -/
theorem put_zeros (n : ℕ) : a.put a.size (List.replicate n 0) = a.extend (a.size + n) := by
  ext i
  · show (if a.size ≤ i then _ else _) = a.get i
    split
    · next h =>
      rw [a.get_of_size_le i h, List.getElem?_replicate]
      split <;> simp
    · rfl
  · simp

/-- A gap before the values is zero anyway. -/
theorem put_extend (pos : ℕ) (data : List α) : (a.extend pos).put pos data = a.put pos data := by
  ext
  · rfl
  · simp only [size_put, size_extend]
    omega

theorem put_nil {pos : ℕ} (h : pos ≤ a.size) : a.put pos [] = a := by
  ext i
  · simp [put]
  · simp [h]

/-- A slice over the end is filled up with zeros. -/
theorem slice_append_zeros (pos len : ℕ) :
    a.slice pos (min len (a.size - pos)) ++ List.replicate (len - min len (a.size - pos)) 0 =
      a.slice pos len := by
  refine List.ext_getElem? fun i => ?_
  rw [List.getElem?_append, length_slice, getElem?_slice, getElem?_slice, List.getElem?_replicate]
  by_cases hi : i < min len (a.size - pos)
  · rw [if_pos hi, if_pos hi, if_pos (by omega)]
  · rw [if_neg hi]
    by_cases hlen : i < len
    · rw [if_pos (by omega), if_pos hlen, a.get_of_size_le (pos + i) (by omega)]
    · rw [if_neg (by omega), if_neg hlen]

/-- Behind the end there are only zeros. -/
theorem slice_of_size_le {pos : ℕ} (h : a.size ≤ pos) (len : ℕ) :
    a.slice pos len = List.replicate len 0 := by
  refine List.ext_getElem? fun i => ?_
  rw [getElem?_slice, List.getElem?_replicate, a.get_of_size_le (pos + i) (by omega)]

end SparseArray
