import Mathlib.Algebra.Group.Defs
import Mathlib.Data.List.GetD
import Mathlib.Data.List.Infix
import Mathlib.Data.List.Range
import Mathlib.Logic.Function.Basic
import Mathlib.Tactic.Common

/-!
# C strings

Strings in buffers of cells: the characters up to the first zero. A buffer is a function on
positions, its size is an argument where it matters.

* `strlen`, `memmove`, `strncpy`, `strstr`: the library functions.
* `Holds s l`: the buffer `s` holds the string `l`.
* `Holds.append`, `Holds.shift`, `holds_strncpy`: how strings change with their buffers.
-/

namespace CString

variable {α : Type*} [Zero α]

/-- A string that can be an argument: no character is zero. -/
def Text (α : Type*) [Zero α] := {l : List α // ∀ c ∈ l, c ≠ 0}

/-- The buffer `s` holds the string `l`. -/
structure Holds (s : ℕ → α) (l : List α) : Prop where
  chars : ∀ i (h : i < l.length), s i = l[i]
  ends : s l.length = 0
  nonzero : ∀ c ∈ l, c ≠ 0

/-- Copies `n` cells; the places may overlap. -/
def memmove (s : ℕ → α) (dst src n : ℕ) : ℕ → α := fun i =>
  if dst ≤ i ∧ i < dst + n then s (src + (i - dst)) else s i

/-- Writes `n` cells: the characters of `src` and then zeros. A string that is too long is cut,
and no zero is written behind it. -/
def strncpy (dst : ℕ → α) (src : List α) (n : ℕ) : ℕ → α := fun i =>
  if i < n then src.getD i 0 else dst i

theorem holds_nil {s : ℕ → α} (h : s 0 = 0) : Holds s [] where
  chars _ hi := absurd hi (Nat.not_lt_zero _)
  ends := h
  nonzero _ hc := absurd hc List.not_mem_nil

theorem holds_strncpy {dst : ℕ → α} {src : List α} {n : ℕ} (hsrc : ∀ c ∈ src, c ≠ 0)
    (h : src.length < n ∨ dst n = 0) : Holds (strncpy dst src n) (src.take n) where
  chars i hi := by
    rw [List.length_take] at hi
    have hin : i < n := by omega
    have his : i < src.length := by omega
    rw [List.getElem_take, strncpy, if_pos hin, List.getD_eq_getElem _ _ his]
  ends := by
    rw [List.length_take, strncpy]
    split
    · exact List.getD_eq_default _ _ (by omega)
    · rcases h with h | h
      · omega
      · rwa [show min n src.length = n by omega]
  nonzero c hc := hsrc c (List.mem_of_mem_take hc)

namespace Holds

variable {s : ℕ → α} {l : List α} {c : α}

theorem ne_zero (h : Holds s l) {i : ℕ} (hi : i < l.length) : s i ≠ 0 := by
  rw [h.chars i hi]
  exact h.nonzero _ (List.getElem_mem hi)

/-- The first cell tells an empty string. -/
theorem eq_nil_iff (h : Holds s l) : s 0 = 0 ↔ l = [] := by
  constructor
  · intro hs
    by_contra hl
    exact h.ne_zero (List.length_pos_iff.mpr hl) hs
  · rintro rfl
    exact h.ends

/-- A character is put behind the string. -/
theorem append (h : Holds s l) (hc : c ≠ 0) :
    Holds (Function.update (Function.update s l.length c) (l.length + 1) 0) (l ++ [c]) where
  chars i hi := by
    rw [List.length_append, List.length_singleton] at hi
    rw [Function.update_of_ne (by omega)]
    obtain hil | rfl : i < l.length ∨ i = l.length := by omega
    · rw [Function.update_of_ne (by omega), h.chars i hil, List.getElem_append_left hil]
    · rw [Function.update_self, List.getElem_append_right (Nat.le_refl _)]
      simp
  ends := by
    rw [List.length_append, List.length_singleton, Function.update_self]
  nonzero b hb := by
    rcases List.mem_append.mp hb with hb | hb
    · exact h.nonzero b hb
    · rwa [List.mem_singleton.mp hb]

/-- A zero put behind the string does not become part of it. -/
theorem append_zero (h : Holds s l) :
    Holds (Function.update (Function.update s l.length 0) (l.length + 1) 0) l where
  chars i hi := by
    rw [Function.update_of_ne (by omega), Function.update_of_ne (by omega), h.chars i hi]
  ends := by
    rw [Function.update_of_ne (by omega), Function.update_self]
  nonzero := h.nonzero

/-- The first character is stripped by moving the rest, with the zero. -/
theorem shift (h : Holds s (c :: l)) : Holds (memmove s 0 1 (l.length + 1)) l where
  chars i hi := by
    rw [memmove, if_pos (by omega), Nat.sub_zero, Nat.add_comm, h.chars (i + 1) (by simpa using hi)]
    rfl
  ends := by
    rw [memmove, if_pos (by omega), Nat.sub_zero, Nat.add_comm]
    exact h.ends
  nonzero b hb := h.nonzero b (List.mem_cons_of_mem _ hb)

end Holds

/-! ## Searches -/

variable [DecidableEq α]

/-- The number of characters. There is none if the buffer of `size` cells holds no zero. -/
def strlen (size : ℕ) (s : ℕ → α) : Option ℕ := (List.range size).find? fun i => s i = 0

/-- The characters of the first `n` cells. -/
def chars (s : ℕ → α) (n : ℕ) : List α := (List.range n).map s

/-- The `n` characters of `needle` stand one behind the other in the `m` characters of `s`. -/
def strstr (s : ℕ → α) (m : ℕ) (needle : ℕ → α) (n : ℕ) : Bool :=
  decide (chars needle n <:+: chars s m)

namespace Holds

variable {s : ℕ → α} {l : List α}

theorem strlen (h : Holds s l) {size : ℕ} (hl : l.length < size) :
    strlen size s = some l.length := by
  rw [CString.strlen, List.find?_eq_some_iff_getElem]
  refine ⟨decide_eq_true h.ends, l.length, by simpa using hl, by simp, fun i hi => ?_⟩
  simp [h.ne_zero hi]

omit [DecidableEq α] in
theorem chars_eq (h : Holds s l) : CString.chars s l.length = l := by
  refine List.ext_getElem (by simp [CString.chars]) fun i _ hi => ?_
  simp [CString.chars, h.chars i hi]

theorem strstr_iff (h : Holds s l) {needle : ℕ → α} {p : List α} (hp : Holds needle p) :
    strstr s l.length needle p.length = true ↔ p <:+: l := by
  rw [strstr, h.chars_eq, hp.chars_eq, decide_eq_true_iff]

end Holds

end CString
