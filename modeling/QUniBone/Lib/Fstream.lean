import QUniBone.Lib.SparseArray

/-!
# File streams

`std::fstream` on one file that is open for reading and writing. There is one position for both.
A stream on which an operation has failed stays failed: seeking, reading and writing do nothing
until `clear`.

* `Fstream`: the file, the position and the error state.
* `seekg`, `seekp`, `tellp`, `read`, `write`: the operations.
-/

/-- A file, and a stream that is open on it. -/
structure Fstream (α : Type*) [Zero α] where
  file : SparseArray α
  pos : ℕ
  eofbit : Bool
  failbit : Bool

namespace Fstream

variable {α : Type*} [Zero α]

/-- `good()` -/
def good (f : Fstream α) : Bool := !f.eofbit && !f.failbit

/-- `open` with `ios::ate` -/
def openAte (file : SparseArray α) : Fstream α := ⟨file, file.size, false, false⟩

/-- `open` with `ios::trunc` -/
def openTrunc : Fstream α := ⟨.empty, 0, false, false⟩

/-- `clear()` -/
def clear (f : Fstream α) : Fstream α := { f with eofbit := false, failbit := false }

/-- Seeking to a position, which may not be negative. -/
def seek (f : Fstream α) (pos : ℤ) : Fstream α :=
  if f.failbit then f
  else if pos < 0 then { f with failbit := true }
  else { f with pos := pos.toNat }

/-- `seekg(pos)`: the end of file is forgotten, a failure is not. -/
def seekg (f : Fstream α) (pos : ℤ) : Fstream α := ({ f with eofbit := false } : Fstream α).seek pos

/-- `seekp(pos)` -/
def seekp (f : Fstream α) (pos : ℤ) : Fstream α := f.seek pos

/-- `seekp(0, ios::end)` -/
def seekpEnd (f : Fstream α) : Fstream α := f.seek f.file.size

/-- `tellp()` -/
def tellp (f : Fstream α) : ℤ := if f.failbit then -1 else f.pos

/-- `read(buffer, n)`: what has been stored into the buffer. -/
def read (f : Fstream α) (n : ℕ) : List α × Fstream α :=
  if f.good then
    let count := min n (f.file.size - f.pos)
    (f.file.slice f.pos count, { f with
      pos := f.pos + count
      eofbit := decide (count < n)
      failbit := decide (count < n) })
  else ([], { f with failbit := true })

/-- `write(buffer, n)` -/
def write (f : Fstream α) (data : List α) : Fstream α :=
  if f.good then
    { f with
      file := if data = [] then f.file else f.file.put f.pos data
      pos := f.pos + data.length }
  else f

variable (f : Fstream α)

@[simp] theorem clear_file : f.clear.file = f.file := rfl

@[simp] theorem clear_failbit : f.clear.failbit = false := rfl

@[simp] theorem clear_eofbit : f.clear.eofbit = false := rfl

theorem seek_of_good (h : f.failbit = false) {n : ℕ} : f.seek n = { f with pos := n } := by
  rw [seek, h, if_neg Bool.false_ne_true, if_neg (by omega), Int.toNat_natCast]

/-- After `clear` a seek works. -/
theorem clear_seekp (n : ℕ) : f.clear.seekp n = ⟨f.file, n, false, false⟩ :=
  seek_of_good _ rfl

theorem clear_seekpEnd : f.clear.seekpEnd = ⟨f.file, f.file.size, false, false⟩ :=
  seek_of_good _ rfl

theorem good_mk (file : SparseArray α) (pos : ℕ) :
    (⟨file, pos, false, false⟩ : Fstream α).good = true := rfl

/-- Writing to a stream that is good, where the file reaches. -/
theorem write_of_le (file : SparseArray α) {pos : ℕ} (h : pos ≤ file.size) (data : List α) :
    (⟨file, pos, false, false⟩ : Fstream α).write data =
      ⟨file.put pos data, pos + data.length, false, false⟩ := by
  rw [write, if_pos (good_mk file pos)]
  split
  · next hdata => rw [hdata, file.put_nil h]
  · rfl

/-- No operation other than `write` changes the file. -/
@[simp] theorem seek_file (pos : ℤ) : (f.seek pos).file = f.file := by
  unfold seek
  split_ifs <;> rfl

@[simp] theorem seekg_file (pos : ℤ) : (f.seekg pos).file = f.file := seek_file _ _

@[simp] theorem seekpEnd_file : f.seekpEnd.file = f.file := seek_file _ _

@[simp] theorem read_file (n : ℕ) : (f.read n).2.file = f.file := by
  unfold read
  split <;> rfl

/-- Reading from a good stream, with the rest of the buffer left zero. -/
theorem seekg_read (h : f.failbit = false) (pos n : ℕ) :
    ((f.seekg pos).read n).1 ++ List.replicate (n - ((f.seekg pos).read n).1.length) 0 =
      f.file.slice pos n := by
  have hseek : f.seekg pos = ⟨f.file, pos, false, false⟩ := by
    rw [seekg, seek_of_good]
    · simp [h]
    · exact h
  rw [hseek, read, if_pos (good_mk f.file pos)]
  simp only [SparseArray.length_slice]
  exact f.file.slice_append_zeros pos n

end Fstream
