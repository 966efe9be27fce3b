import Mathlib.Data.List.DropRight
import Mathlib.Data.BitVec
import Mathlib.Tactic.Common

/-!
# File names

A `std::string` is a list of characters, each of which stands for a byte.

* `trim`, `splitPath`, `rad50Decode`, `rad50Encode`: `utils.cpp`.
* `filenameFromHost`: the 6.3 name that a host name is mapped to, for both DEC file systems.
-/

namespace QUniBone.Sharedfs

/-- `std::string` -/
abbrev Text := List Char

/-- `isspace()` -/
def isSpace (c : Char) : Bool := c = ' ' ∨ (0x09 ≤ c.toNat ∧ c.toNat ≤ 0x0d)

/-- `toupper()` -/
def toUpper (c : Char) : Char :=
  if 'a'.toNat ≤ c.toNat ∧ c.toNat ≤ 'z'.toNat then Char.ofNat (c.toNat - 0x20) else c

def ltrim (s : Text) : Text := s.dropWhile isSpace

def rtrim (s : Text) : Text := s.rdropWhile isSpace

def trim (s : Text) : Text := rtrim (ltrim s)

/-! ## Paths -/

/-- What comes before the last `c`, and what comes behind it. -/
def splitLast (c : Char) (s : Text) : Option (Text × Text) :=
  if c ∈ s then some ((s.rdropWhile (· ≠ c)).dropLast, s.rtakeWhile (· ≠ c)) else none

theorem splitLast_append {c : Char} {y : Text} (hy : c ∉ y) (x : Text) :
    splitLast c (x ++ c :: y) = some (x, y) := by
  have hne : ∀ d ∈ y.reverse, decide (d ≠ c) = true := by
    intro d hd
    rw [List.mem_reverse] at hd
    simpa using fun h : d = c => hy (h ▸ hd)
  have hreverse : (x ++ c :: y).reverse = y.reverse ++ c :: x.reverse := by simp
  have hbehind : (x ++ c :: y).rtakeWhile (· ≠ c) = y := by
    rw [List.rtakeWhile, hreverse, List.takeWhile_append_of_pos hne,
      List.takeWhile_cons_of_neg (by simp), List.append_nil, List.reverse_reverse]
  have hbefore : (x ++ c :: y).rdropWhile (· ≠ c) = x ++ [c] := by
    rw [List.rdropWhile, hreverse, List.dropWhile_append_of_pos hne,
      List.dropWhile_cons_of_neg (by simp), List.reverse_cons, List.reverse_reverse]
  rw [splitLast, if_pos (by simp), hbehind, hbefore, List.dropLast_concat]

/-- The parts, put together again -/
theorem splitLast_eq_some {c : Char} {s x y : Text} (h : splitLast c s = some (x, y)) :
    s = x ++ c :: y ∧ c ∉ y := by
  by_cases hc : c ∈ s
  · -- the last `c` is the first one from behind
    obtain ⟨u, v, hsplit, hu⟩ := List.eq_append_cons_of_mem (List.mem_reverse.mpr hc)
    have hs : s = v.reverse ++ c :: u.reverse := by
      rw [← List.reverse_reverse s, hsplit]
      simp
    have hu' : c ∉ u.reverse := by simpa using hu
    rw [hs, splitLast_append hu'] at h
    cases h
    exact ⟨hs, hu'⟩
  · simp [splitLast, hc] at h

/-- `directories` of `split_path()`: no trailing slashes, but the single one of the root stays. -/
def directories (path : Text) : Text :=
  match splitLast '/' path with
  | none => []
  | some (dir, _) =>
    let dir := dir.rdropWhile (· = '/')
    if dir = [] then ['/'] else dir

/-- `filename` of `split_path()` -/
def filename (path : Text) : Text := path.rtakeWhile (· ≠ '/')

/-- `basename` and `extension` of `split_path()`, for a file name. Dots at its beginning do not
begin an extension. -/
def splitExt (fname : Text) : Text × Text :=
  match splitLast '.' fname with
  | none => (fname, [])
  | some (base, ext) => if base.all (· = '.') then (fname, []) else (base, ext)

/-! ## RAD50 -/

/-- `rad50_chr2val()` -/
def rad50Chr2val (c : Char) : ℕ :=
  if c = ' ' then 0
  else if 'A'.toNat ≤ c.toNat ∧ c.toNat ≤ 'Z'.toNat then 1 + (c.toNat - 'A'.toNat)
  else if c = '$' then 0o33
  else if c = '.' then 0o34
  else if c = '%' then 0o35
  else if '0'.toNat ≤ c.toNat ∧ c.toNat ≤ '9'.toNat then 0o36 + (c.toNat - '0'.toNat)
  else 0o35

/-- `rad50_val2chr()` -/
def rad50Val2chr (val : ℕ) : Char :=
  if val = 0 then ' '
  else if val ≤ 0o32 then Char.ofNat ('A'.toNat + val - 1)
  else if val = 0o33 then '$'
  else if val = 0o34 then '.'
  else if val = 0o35 then '%'
  else if val ≤ 0o47 then Char.ofNat ('0'.toNat + val - 0o36)
  else '%'

/-- `rad50_decode()` -/
def rad50Decode (w : ℕ) : Text :=
  [rad50Val2chr (w / 0o50 / 0o50), rad50Val2chr (w / 0o50 % 0o50), rad50Val2chr (w % 0o50)]

/-- The value of the character at a position, a space behind the end. -/
def rad50ValAt (s : Text) (i : ℕ) : ℕ :=
  match s[i]? with
  | some c => rad50Chr2val (toUpper c)
  | none => 0

/-- `rad50_encode()` -/
def rad50Encode (s : Text) : ℕ := (rad50ValAt s 0 * 0o50 + rad50ValAt s 1) * 0o50 + rad50ValAt s 2

/-! ## Host names -/

/-- The character of a DEC name that a host character becomes, `bad` if it is none. -/
def fromHost (bad c : Char) : Char :=
  if c = '_' then ' '
  else if 'a'.toNat ≤ c.toNat ∧ c.toNat ≤ 'z'.toNat then toUpper c
  else if ('A'.toNat ≤ c.toNat ∧ c.toNat ≤ 'Z'.toNat) ∨ c = '$' ∨ c = '.' ∨
      ('0'.toNat ≤ c.toNat ∧ c.toNat ≤ '9'.toNat) then c
  else bad

/-- `filename_from_host()`: basename and extension -/
def filenameFromHost (bad : Char) (hostfname : Text) : Text × Text :=
  let (base, ext) := splitExt (hostfname.map (fromHost bad))
  (trim (base.take 6), trim (ext.take 3))

/-- Where there is an extension, it is behind the last dot, and not only dots are before it. -/
theorem splitExt_append {base ext : Text} (hext : '.' ∉ ext) (hbase : ∃ c ∈ base, c ≠ '.') :
    splitExt (base ++ '.' :: ext) = (base, ext) := by
  obtain ⟨c, hc, hne⟩ := hbase
  have hall : base.all (· = '.') = false := by
    rw [List.all_eq_false]
    exact ⟨c, hc, by simpa using hne⟩
  rw [splitExt, splitLast_append hext]
  simp [hall]

theorem splitExt_dots {base ext : Text} (hext : '.' ∉ ext) (hbase : ∀ c ∈ base, c = '.') :
    splitExt (base ++ '.' :: ext) = (base ++ '.' :: ext, []) := by
  have hall : base.all (· = '.') = true := by
    rw [List.all_eq_true]
    simpa using hbase
  rw [splitExt, splitLast_append hext]
  simp [hall]

/-- An extension has no dot, and is at least one character shorter than the name. -/
theorem splitExt_cases (s : Text) : splitExt s = (s, []) ∨
    ∃ base ext, splitExt s = (base, ext) ∧ s = base ++ '.' :: ext ∧ '.' ∉ ext ∧
      ∃ c ∈ base, c ≠ '.' := by
  unfold splitExt
  split
  · exact Or.inl rfl
  · next base ext hsplit =>
    obtain ⟨hs, hext⟩ := splitLast_eq_some hsplit
    split
    · exact Or.inl rfl
    · next hall =>
      rw [Bool.not_eq_true, List.all_eq_false] at hall
      obtain ⟨c, hc, hne⟩ := hall
      exact Or.inr ⟨base, ext, rfl, hs, hext, c, hc, by simpa using hne⟩

example : filenameFromHost '$' ['b', 'l', 'a', '.', 'f', 'o', 'o', '.', 'c'] =
    (['B', 'L', 'A', '.', 'F', 'O'], ['C']) := by decide

end QUniBone.Sharedfs
