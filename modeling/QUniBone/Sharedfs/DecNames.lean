import QUniBone.Sharedfs.Names
import Mathlib.Tactic.IntervalCases

/-!
# DEC names

A DEC file system names a file with three RAD50 words: two for the basename, one for the extension.

* `IsRad50`: the characters that there are.
* `NameWords`: the three words, with the name they stand for.
* `encodeWords_eq_iff`: a name without blanks at its ends is the one that its words stand for.
* `cutName`: what `filenameFromHost` makes of a name whose characters are mapped.
-/

namespace QUniBone.Sharedfs

/-! ## RAD50 characters -/

/-- The characters that RAD50 has -/
def IsRad50 (c : Char) : Prop := ∃ v < 0o50, rad50Val2chr v = c

theorem isRad50_val2chr (v : ℕ) : IsRad50 (rad50Val2chr v) := by
  by_cases h : v < 0o50
  · exact ⟨v, h, rfl⟩
  · have hinvalid : rad50Val2chr v = '%' := by
      unfold rad50Val2chr
      rw [if_neg (by omega), if_neg (by omega), if_neg (by omega), if_neg (by omega),
        if_neg (by omega), if_neg (by omega)]
    exact ⟨0o35, by decide, hinvalid.symm⟩

theorem chr2val_val2chr {v : ℕ} (h : v < 0o50) : rad50Chr2val (rad50Val2chr v) = v := by
  have hall : ∀ v < 0o50, rad50Chr2val (rad50Val2chr v) = v := by decide
  exact hall v h

theorem chr2val_lt (c : Char) : rad50Chr2val c < 0o50 := by
  unfold rad50Chr2val
  have hA : 'A'.toNat = 65 := rfl
  have hZ : 'Z'.toNat = 90 := rfl
  have h0 : '0'.toNat = 48 := rfl
  have h9 : '9'.toNat = 57 := rfl
  split_ifs <;> omega

namespace IsRad50

variable {c : Char}

theorem val2chr_chr2val (h : IsRad50 c) : rad50Val2chr (rad50Chr2val c) = c := by
  obtain ⟨v, hv, rfl⟩ := h
  rw [chr2val_val2chr hv]

theorem toUpper_eq (h : IsRad50 c) : toUpper c = c := by
  obtain ⟨v, hv, rfl⟩ := h
  have hall : ∀ v < 0o50, toUpper (rad50Val2chr v) = rad50Val2chr v := by decide
  exact hall v hv

theorem isSpace_iff (h : IsRad50 c) : isSpace c = true ↔ c = ' ' := by
  obtain ⟨v, hv, rfl⟩ := h
  have hall : ∀ v < 0o50, isSpace (rad50Val2chr v) = true ↔ rad50Val2chr v = ' ' := by decide
  exact hall v hv

theorem ne_slash (h : IsRad50 c) : c ≠ '/' := by
  obtain ⟨v, hv, rfl⟩ := h
  have hall : ∀ v < 0o50, rad50Val2chr v ≠ '/' := by decide
  exact hall v hv

/-- A blank and a percent sign become the character for what is not allowed. -/
theorem fromHost_eq (h : IsRad50 c) (bad : Char) :
    fromHost bad c = if c = ' ' ∨ c = '%' then bad else c := by
  obtain ⟨v, hv, rfl⟩ := h
  interval_cases v <;> rfl

end IsRad50

/-! ## Words -/

/-- The words of a name in a directory -/
structure NameWords where
  name1 : BitVec 16
  name2 : BitVec 16
  ext : BitVec 16
  deriving DecidableEq

namespace NameWords

variable (w : NameWords)

/-- Six characters -/
def basename : Text := rad50Decode w.name1.toNat ++ rad50Decode w.name2.toNat

/-- Three characters -/
def extension : Text := rad50Decode w.ext.toNat

/-- The words are RAD50 numbers. -/
structure Valid : Prop where
  name1 : w.name1.toNat < 0o50 ^ 3
  name2 : w.name2.toNat < 0o50 ^ 3
  ext : w.ext.toNat < 0o50 ^ 3

/-- The basename without the blanks at its end -/
def base : Text := rtrim w.basename

/-- The extension without the blanks at its end -/
def exten : Text := rtrim w.extension

end NameWords

/-- The words of a basename and an extension, as `render_directory()` encodes them -/
def encodeWords (name : Text × Text) : NameWords where
  name1 := BitVec.ofNat 16 (rad50Encode name.1)
  name2 := BitVec.ofNat 16 (rad50Encode (name.1.drop 3))
  ext := BitVec.ofNat 16 (rad50Encode name.2)

theorem rad50Encode_lt (s : Text) : rad50Encode s < 0o50 ^ 3 := by
  have hval : ∀ i, rad50ValAt s i < 0o50 := by
    intro i
    unfold rad50ValAt
    split
    · exact chr2val_lt _
    · decide
  have h0 := hval 0
  have h1 := hval 1
  have h2 := hval 2
  unfold rad50Encode
  omega

/-- A number that has been encoded is decoded to the three values. -/
theorem rad50Decode_digits {a b c : ℕ} (hb : b < 0o50) (hc : c < 0o50) :
    rad50Decode ((a * 0o50 + b) * 0o50 + c) =
      [rad50Val2chr a, rad50Val2chr b, rad50Val2chr c] := by
  have ha : ((a * 0o50 + b) * 0o50 + c) / 0o50 / 0o50 = a := by omega
  have hb : ((a * 0o50 + b) * 0o50 + c) / 0o50 % 0o50 = b := by omega
  have hc : ((a * 0o50 + b) * 0o50 + c) % 0o50 = c := by omega
  rw [rad50Decode, ha, hb, hc]

/-- A text of RAD50 characters comes back with blanks at its end. -/
theorem rad50Decode_encode {s : Text} (hs : ∀ c ∈ s, IsRad50 c) :
    rad50Decode (rad50Encode s) = s.take 3 ++ List.replicate (3 - s.length) ' ' := by
  have hval : ∀ i, rad50ValAt s i < 0o50 := by
    intro i
    unfold rad50ValAt
    split
    · exact chr2val_lt _
    · decide
  have hchar : ∀ i, rad50Val2chr (rad50ValAt s i) = s[i]?.getD ' ' := by
    intro i
    unfold rad50ValAt
    cases hi : s[i]? with
    | none => rfl
    | some c =>
      have hc := hs c (List.mem_of_getElem? hi)
      show rad50Val2chr (rad50Chr2val (toUpper c)) = c
      rw [hc.toUpper_eq, hc.val2chr_chr2val]
  rw [rad50Encode, rad50Decode_digits (hval 1) (hval 2), hchar, hchar, hchar]
  rcases s with _ | ⟨a, _ | ⟨b, _ | ⟨c, s⟩⟩⟩ <;> simp [List.replicate]

/-! ## Blanks at the ends -/

theorem trim_eq_self {s : Text} (h : ∀ c ∈ s, isSpace c = false) : trim s = s := by
  have hleft : ltrim s = s := by
    cases s with
    | nil => rfl
    | cons c s => exact List.dropWhile_cons_of_neg (by simp [h c (by simp)])
  have hright : rtrim s = s := by
    rw [rtrim, List.rdropWhile_eq_self_iff]
    intro hne
    simp [h _ (List.getLast_mem hne)]
  rw [trim, hleft, hright]

theorem mem_of_mem_rtrim {s : Text} {c : Char} (h : c ∈ rtrim s) : c ∈ s :=
  (List.rdropWhile_prefix isSpace s).subset h

theorem mem_of_mem_trim {s : Text} {c : Char} (h : c ∈ trim s) : c ∈ s :=
  List.dropWhile_subset isSpace (mem_of_mem_rtrim h)

theorem length_trim_le (s : Text) : (trim s).length ≤ s.length :=
  (List.rdropWhile_prefix isSpace _).length_le.trans (List.dropWhile_suffix isSpace).length_le

theorem mem_rtrim {s : Text} {c : Char} (h : c ∈ s) (hc : isSpace c = false) : c ∈ rtrim s := by
  have hsplit : rtrim s ++ s.rtakeWhile isSpace = s := List.rdropWhile_append_rtakeWhile
  rw [← hsplit] at h
  rcases List.mem_append.mp h with h | h
  · exact h
  · have hspace := List.mem_rtakeWhile_imp h
    rw [hc] at hspace
    cases hspace

/-- If nothing is left, only blanks were there. -/
theorem eq_nil_of_trim {s : Text} (h : trim s = []) (hs : rtrim s = s) : s = [] := by
  have hspace : ∀ c ∈ s, isSpace c = true := by
    intro c hc
    by_contra hne
    rw [Bool.not_eq_true] at hne
    have hleft : c ∈ ltrim s := by
      rw [← List.takeWhile_append_dropWhile (p := isSpace) (l := s), List.mem_append] at hc
      rcases hc with hc | hc
      · rw [List.mem_takeWhile_imp hc] at hne
        cases hne
      · exact hc
    have hright := mem_rtrim hleft hne
    rw [← trim, h] at hright
    cases hright
  rw [← hs, rtrim, List.rdropWhile_eq_nil_iff]
  exact hspace

@[simp] theorem rtrim_rtrim (s : Text) : rtrim (rtrim s) = rtrim s :=
  List.rdropWhile_idempotent isSpace s

@[simp] theorem rtrim_trim (s : Text) : rtrim (trim s) = trim s := rtrim_rtrim (ltrim s)

theorem rtrim_append_blanks (s : Text) (n : ℕ) : rtrim (s ++ List.replicate n ' ') = rtrim s := by
  induction n with
  | zero => simp
  | succ n ih =>
    rw [List.replicate_succ', ← List.append_assoc, rtrim,
      List.rdropWhile_concat_pos isSpace _ _ (by decide)]
    exact ih

theorem trim_append_blanks (s : Text) (n : ℕ) : trim (s ++ List.replicate n ' ') = trim s := by
  have hblanks : (List.replicate n ' ').dropWhile isSpace = [] := by
    rw [List.dropWhile_eq_nil_iff]
    intro c hc
    rw [List.eq_of_mem_replicate hc]
    decide
  rw [trim, ltrim, List.dropWhile_append, hblanks]
  split
  · next hempty =>
    rw [List.isEmpty_iff] at hempty
    rw [trim, ltrim, hempty]
  · exact rtrim_append_blanks _ n

/-- The blanks that are trimmed -/
theorem exists_blanks {s : Text} (hs : ∀ c ∈ s, IsRad50 c) :
    ∃ n, s = rtrim s ++ List.replicate n ' ' := by
  have hsplit : rtrim s ++ s.rtakeWhile isSpace = s := List.rdropWhile_append_rtakeWhile
  have hblank : ∀ c ∈ s.rtakeWhile isSpace, c = ' ' := by
    intro c hc
    have hmem : c ∈ s := (List.rtakeWhile_suffix isSpace s).subset hc
    exact (hs c hmem).isSpace_iff.mp (List.mem_rtakeWhile_imp hc)
  refine ⟨(s.rtakeWhile isSpace).length, ?_⟩
  rw [← List.eq_replicate_iff.mpr ⟨rfl, hblank⟩, hsplit]

/-- For the encoder, blanks at the end are not there. -/
theorem rad50ValAt_rtrim {s : Text} (hs : ∀ c ∈ s, IsRad50 c) (i : ℕ) :
    rad50ValAt (rtrim s) i = rad50ValAt s i := by
  obtain ⟨n, hn⟩ := exists_blanks hs
  have hget : s[i]? = (rtrim s ++ List.replicate n ' ')[i]? := congrArg (·[i]?) hn
  unfold rad50ValAt
  by_cases hi : i < (rtrim s).length
  · rw [hget, List.getElem?_append_left hi]
  · rw [hget, List.getElem?_append_right (by omega), List.getElem?_eq_none (by omega)]
    cases hc : (List.replicate n ' ')[i - (rtrim s).length]? with
    | none => rfl
    | some c =>
      rw [List.eq_of_mem_replicate (List.mem_of_getElem? hc)]
      rfl

theorem rad50ValAt_drop (s : Text) (n i : ℕ) : rad50ValAt (s.drop n) i = rad50ValAt s (n + i) := by
  rw [rad50ValAt, List.getElem?_drop]
  rfl

/-! ## Names and their words -/

theorem rad50_of_mem_decode {n : ℕ} {c : Char} (h : c ∈ rad50Decode n) : IsRad50 c := by
  simp only [rad50Decode, List.mem_cons, List.not_mem_nil, or_false] at h
  rcases h with rfl | rfl | rfl
  · exact isRad50_val2chr _
  · exact isRad50_val2chr _
  · exact isRad50_val2chr _

theorem rad50Encode_decode {n : ℕ} (h : n < 0o50 ^ 3) (t : Text) :
    rad50Encode (rad50Decode n ++ t) = n := by
  have hval : ∀ v < 0o50, rad50Chr2val (toUpper (rad50Val2chr v)) = v := by decide
  have h0 : rad50ValAt (rad50Decode n ++ t) 0 = n / 0o50 / 0o50 := hval _ (by omega)
  have h1 : rad50ValAt (rad50Decode n ++ t) 1 = n / 0o50 % 0o50 := hval _ (by omega)
  have h2 : rad50ValAt (rad50Decode n ++ t) 2 = n % 0o50 := hval _ (by omega)
  rw [rad50Encode, h0, h1, h2]
  omega

theorem rad50Encode_congr {s t : Text} (h : ∀ i, rad50ValAt s i = rad50ValAt t i) :
    rad50Encode s = rad50Encode t := by
  unfold rad50Encode
  rw [h 0, h 1, h 2]

namespace NameWords

variable (w : NameWords)

theorem rad50_of_mem_basename {c : Char} (h : c ∈ w.basename) : IsRad50 c := by
  rcases List.mem_append.mp h with h | h
  · exact rad50_of_mem_decode h
  · exact rad50_of_mem_decode h

theorem rad50_of_mem_base {c : Char} (h : c ∈ w.base) : IsRad50 c :=
  w.rad50_of_mem_basename (mem_of_mem_rtrim h)

theorem rad50_of_mem_exten {c : Char} (h : c ∈ w.exten) : IsRad50 c :=
  rad50_of_mem_decode (mem_of_mem_rtrim h)

theorem rtrim_base : rtrim w.base = w.base := rtrim_rtrim _

/-- A word that is none has a percent sign in its place. -/
theorem valid_of_percent (hbase : '%' ∉ w.base) (hexten : '%' ∉ w.exten) : w.Valid := by
  have hinvalid : ∀ n, 0o50 ^ 3 ≤ n → '%' ∈ rad50Decode n := by
    intro n hn
    have hfirst : rad50Val2chr (n / 0o50 / 0o50) = '%' := by
      unfold rad50Val2chr
      rw [if_neg (by omega), if_neg (by omega), if_neg (by omega), if_neg (by omega),
        if_neg (by omega), if_neg (by omega)]
    simp [rad50Decode, hfirst]
  constructor
  · by_contra hn
    exact hbase (mem_rtrim (List.mem_append_left _ (hinvalid _ (by omega))) (by decide))
  · by_contra hn
    exact hbase (mem_rtrim (List.mem_append_right _ (hinvalid _ (by omega))) (by decide))
  · by_contra hn
    exact hexten (mem_rtrim (hinvalid _ (by omega)) (by decide))

theorem trim_basename : trim w.basename = trim w.base := by
  obtain ⟨n, hn⟩ := exists_blanks fun _ => w.rad50_of_mem_basename
  conv_lhs => rw [hn, trim_append_blanks]
  rfl

theorem trim_extension : trim w.extension = trim w.exten := by
  obtain ⟨n, hn⟩ := exists_blanks (s := w.extension) fun _ => rad50_of_mem_decode
  conv_lhs => rw [hn, trim_append_blanks]
  rfl

theorem isSpace_base (h : ∀ c ∈ w.base, c ≠ ' ') : ∀ c ∈ w.base, isSpace c = false := by
  intro c hc
  rw [← Bool.not_eq_true, (w.rad50_of_mem_base hc).isSpace_iff]
  exact h c hc

theorem isSpace_exten (h : ∀ c ∈ w.exten, c ≠ ' ') : ∀ c ∈ w.exten, isSpace c = false := by
  intro c hc
  rw [← Bool.not_eq_true, (w.rad50_of_mem_exten hc).isSpace_iff]
  exact h c hc

theorem base_length_le : w.base.length ≤ 6 := (List.rdropWhile_prefix isSpace _).length_le

theorem exten_length_le : w.exten.length ≤ 3 := (List.rdropWhile_prefix isSpace _).length_le

end NameWords

/-- Basename and extension as a host name gives them -/
structure IsDecName (name : Text × Text) : Prop where
  base_rad50 : ∀ c ∈ name.1, IsRad50 c
  ext_rad50 : ∀ c ∈ name.2, IsRad50 c
  base_length : name.1.length ≤ 6
  ext_length : name.2.length ≤ 3
  base_trimmed : rtrim name.1 = name.1
  ext_trimmed : rtrim name.2 = name.2

theorem encodeWords_base_exten {w : NameWords} (hw : w.Valid) :
    encodeWords (w.base, w.exten) = w := by
  have hname1 : rad50Encode w.base = w.name1.toNat := by
    rw [NameWords.base, rad50Encode_congr (rad50ValAt_rtrim fun _ => w.rad50_of_mem_basename)]
    exact rad50Encode_decode hw.name1 _
  have hname2 : rad50Encode (w.base.drop 3) = w.name2.toNat := by
    have hdrop : ∀ i, rad50ValAt (w.base.drop 3) i = rad50ValAt (w.basename.drop 3) i := by
      intro i
      rw [rad50ValAt_drop, rad50ValAt_drop]
      exact rad50ValAt_rtrim (fun _ => w.rad50_of_mem_basename) _
    have hsecond : w.basename.drop 3 = rad50Decode w.name2.toNat ++ [] := rfl
    rw [rad50Encode_congr hdrop, hsecond, rad50Encode_decode hw.name2]
  have hext : rad50Encode w.exten = w.ext.toNat := by
    have happend : w.extension = rad50Decode w.ext.toNat ++ [] := rfl
    have hrad50 : ∀ c ∈ w.extension, IsRad50 c := fun _ => rad50_of_mem_decode
    rw [NameWords.exten, rad50Encode_congr (rad50ValAt_rtrim hrad50), happend,
      rad50Encode_decode hw.ext]
  unfold encodeWords
  rw [hname1, hname2, hext]
  simp

theorem encodeWords_toNat (s : Text) : (BitVec.ofNat 16 (rad50Encode s)).toNat = rad50Encode s := by
  have hlt := rad50Encode_lt s
  rw [BitVec.toNat_ofNat, Nat.mod_eq_of_lt (by omega)]

/-- The words of a name tell the name. -/
theorem encodeWords_eq_iff {name : Text × Text} (h : IsDecName name) (w : NameWords) :
    encodeWords name = w ↔ w.Valid ∧ name = (w.base, w.exten) := by
  constructor
  · rintro rfl
    obtain ⟨a, b⟩ := name
    have hlen : a.length ≤ 6 := h.base_length
    have hvalid : (encodeWords (a, b)).Valid := by
      constructor <;> simp only [encodeWords, encodeWords_toNat] <;> exact rad50Encode_lt _
    have hbase : (encodeWords (a, b)).basename = a ++ List.replicate (6 - a.length) ' ' := by
      have hdrop : ∀ c ∈ a.drop 3, IsRad50 c := fun c hc =>
        h.base_rad50 c (List.mem_of_mem_drop hc)
      simp only [NameWords.basename, encodeWords, encodeWords_toNat]
      rw [rad50Decode_encode h.base_rad50, rad50Decode_encode hdrop]
      show a.take 3 ++ List.replicate (3 - a.length) ' ' ++
        ((a.drop 3).take 3 ++ List.replicate (3 - (a.drop 3).length) ' ') = _
      rw [List.take_of_length_le (by simp; omega : (a.drop 3).length ≤ 3), List.length_drop]
      by_cases hshort : a.length ≤ 3
      · have hblanks : 6 - a.length = (3 - a.length) + (3 - (a.length - 3)) := by omega
        rw [List.take_of_length_le hshort, List.drop_of_length_le hshort, hblanks,
          List.replicate_add]
        simp
      · have hnone : 3 - a.length = 0 := by omega
        have hblanks : 3 - (a.length - 3) = 6 - a.length := by omega
        rw [hnone, hblanks, List.replicate_zero, List.append_nil, ← List.append_assoc,
          List.take_append_drop]
    have hext : (encodeWords (a, b)).extension = b ++ List.replicate (3 - b.length) ' ' := by
      simp only [NameWords.extension, encodeWords, encodeWords_toNat]
      rw [rad50Decode_encode h.ext_rad50, List.take_of_length_le h.ext_length]
    refine ⟨hvalid, ?_⟩
    rw [NameWords.base, NameWords.exten, hbase, hext, rtrim_append_blanks, rtrim_append_blanks,
      h.base_trimmed, h.ext_trimmed]
  · rintro ⟨hvalid, rfl⟩
    exact encodeWords_base_exten hvalid

/-! ## Host names -/

/-- What is left of a host name that is mapped to RAD50 characters -/
def cutName (s : Text) : Text × Text :=
  (trim ((splitExt s).1.take 6), trim ((splitExt s).2.take 3))

theorem filenameFromHost_eq (bad : Char) (hostfname : Text) :
    filenameFromHost bad hostfname = cutName (hostfname.map (fromHost bad)) := rfl

theorem mem_of_mem_splitExt {s : Text} {c : Char} :
    (c ∈ (splitExt s).1 → c ∈ s) ∧ (c ∈ (splitExt s).2 → c ∈ s.tail) := by
  rcases splitExt_cases s with h | ⟨base, ext, h, hs, -, d, hd, -⟩
  · simp [h]
  · -- a character is before the dot
    cases base with
    | nil => simp at hd
    | cons b base =>
      rw [h]
      subst hs
      exact ⟨fun hc => List.mem_append_left _ hc,
        fun hc => List.mem_append_right _ (List.mem_cons_of_mem _ hc)⟩

theorem mem_of_mem_cutName {s : Text} {c : Char} :
    (c ∈ (cutName s).1 → c ∈ s) ∧ (c ∈ (cutName s).2 → c ∈ s.tail) :=
  ⟨fun h => mem_of_mem_splitExt.1 (List.mem_of_mem_take (mem_of_mem_trim h)),
    fun h => mem_of_mem_splitExt.2 (List.mem_of_mem_take (mem_of_mem_trim h))⟩

theorem isDecName_cutName {s : Text} (h : ∀ c ∈ s, IsRad50 c) : IsDecName (cutName s) where
  base_rad50 := fun c hc => h c (mem_of_mem_cutName.1 hc)
  ext_rad50 := fun c hc => h c (List.mem_of_mem_tail (mem_of_mem_cutName.2 hc))
  base_length := (length_trim_le _).trans (List.length_take_le 6 _)
  ext_length := (length_trim_le _).trans (List.length_take_le 3 _)
  base_trimmed := rtrim_trim _
  ext_trimmed := rtrim_trim _

theorem isRad50_ofNat {n : ℕ} (h : 'A'.toNat ≤ n) (h' : n ≤ 'Z'.toNat) :
    IsRad50 (Char.ofNat n) := by
  have hA : 'A'.toNat = 65 := rfl
  have hZ : 'Z'.toNat = 90 := rfl
  refine ⟨n - 64, by omega, ?_⟩
  rw [rad50Val2chr, if_neg (by omega), if_pos (by omega), hA]
  congr 1
  omega

theorem isRad50_fromHost {bad : Char} (hbad : IsRad50 bad) (c : Char) :
    IsRad50 (fromHost bad c) := by
  have hA : 'A'.toNat = 65 := rfl
  have hZ : 'Z'.toNat = 90 := rfl
  have h0 : '0'.toNat = 48 := rfl
  have h9 : '9'.toNat = 57 := rfl
  unfold fromHost
  split
  · exact ⟨0, by decide, rfl⟩
  · split
    · next hlower =>
      rw [toUpper, if_pos hlower]
      have ha : 'a'.toNat = 97 := rfl
      have hz : 'z'.toNat = 122 := rfl
      exact isRad50_ofNat (by omega) (by omega)
    · split
      · next hc =>
        rcases hc with hc | rfl | rfl | hc
        · rw [← Char.ofNat_toNat c]
          exact isRad50_ofNat hc.1 hc.2
        · exact ⟨0o33, by decide, rfl⟩
        · exact ⟨0o34, by decide, rfl⟩
        · refine ⟨c.toNat - 0o22, by omega, ?_⟩
          rw [rad50Val2chr, if_neg (by omega), if_neg (by omega), if_neg (by omega),
            if_neg (by omega), if_neg (by omega), if_pos (by omega), h0]
          have hn : 48 + (c.toNat - 0o22) - 0o36 = c.toNat := by omega
          rw [hn, Char.ofNat_toNat]
      · exact hbad

/-- What is behind the last dot is not longer than what is behind one of them. -/
theorem splitExt_length_le (x y : Text) : (splitExt (x ++ '.' :: y)).2.length ≤ y.length := by
  rcases splitExt_cases (x ++ '.' :: y) with h | ⟨base, ext, h, hs, hext, -⟩
  · simp [h]
  · rw [h]
    show ext.length ≤ y.length
    by_contra hlong
    have hy : '.' :: y <:+ x ++ '.' :: y := List.suffix_append _ _
    have he : ext <:+ x ++ '.' :: y := by
      rw [hs]
      exact (List.suffix_cons '.' ext).trans (List.suffix_append base _)
    have hsuffix : '.' :: y <:+ ext :=
      List.suffix_of_suffix_length_le hy he (by rw [List.length_cons]; omega)
    exact hext (hsuffix.subset (by simp))

/-- A dot in the extension ends what is taken for the basename. -/
theorem cutName_ext_ne {base ext : Text} (hdot : '.' ∈ ext) :
    (cutName (base ++ '.' :: ext)).2 ≠ ext := by
  intro h
  rcases splitExt_cases (base ++ '.' :: ext) with hsplit | ⟨x, y, hsplit, -, hy, -⟩
  · rw [cutName, hsplit] at h
    rw [← h] at hdot
    simp [trim, ltrim, rtrim] at hdot
  · rw [cutName, hsplit] at h
    rw [← h] at hdot
    exact hy (List.mem_of_mem_take (mem_of_mem_trim hdot))

theorem cutName_append {base ext : Text} (hext : '.' ∉ ext) (hbase : ∃ c ∈ base, c ≠ '.') :
    cutName (base ++ '.' :: ext) = (trim (base.take 6), trim (ext.take 3)) := by
  rw [cutName, splitExt_append hext hbase]

theorem cutName_dots {base ext : Text} (hext : '.' ∉ ext) (hbase : ∀ c ∈ base, c = '.') :
    cutName (base ++ '.' :: ext) = (trim ((base ++ '.' :: ext).take 6), []) := by
  rw [cutName, splitExt_dots hext hbase]
  rfl

/-- A name without an extension stays whole if there is none to be found in it. -/
theorem cutName_base_iff {base : Text} (hlen : base.length ≤ 6)
    (hblank : ∀ c ∈ base, isSpace c = false) :
    cutName base = (base, []) ↔ splitExt base = (base, []) := by
  constructor
  · intro h
    rcases splitExt_cases base with hsplit | ⟨x, y, hsplit, hs, -, -⟩
    · exact hsplit
    · -- the basename has become shorter
      have hle : (trim (x.take 6)).length ≤ x.length :=
        (length_trim_le _).trans (by rw [List.length_take]; omega)
      have hfirst : trim (x.take 6) = base := by
        have hcut := congrArg Prod.fst h
        rwa [cutName, hsplit] at hcut
      have hlength := congrArg List.length hs
      rw [hfirst] at hle
      simp only [List.length_append, List.length_cons] at hlength
      omega
  · intro h
    rw [cutName, h]
    show (trim (base.take 6), []) = (base, [])
    rw [List.take_of_length_le hlen, trim_eq_self hblank]

theorem map_toUpper {s : Text} (h : ∀ c ∈ s, c = '_' ∨ IsRad50 c) : s.map toUpper = s := by
  have hid : ∀ c ∈ s, toUpper c = c := by
    intro c hc
    rcases h c hc with rfl | hc
    · rfl
    · exact hc.toUpper_eq
  rw [List.map_congr_left hid]
  exact List.map_id' s

theorem fromHost_map {bad : Char} {s : Text} (hs : ∀ c ∈ s, IsRad50 c)
    (h : ∀ c ∈ s, ¬(c = ' ' ∨ c = '%')) : s.map (fromHost bad) = s := by
  have hid : ∀ c ∈ s, fromHost bad c = c := by
    intro c hc
    rw [(hs c hc).fromHost_eq, if_neg (h c hc)]
  rw [List.map_congr_left hid]
  exact List.map_id' s

theorem filename_slash {s : Text} (h : '/' ∉ s) : filename ('/' :: s) = s := by
  have hall : ∀ c ∈ s, decide (c ≠ '/') = true := by
    intro c hc
    simpa using fun heq : c = '/' => h (heq ▸ hc)
  rw [filename, List.rtakeWhile, List.reverse_cons,
    List.takeWhile_append_of_pos fun c hc => hall c (List.mem_reverse.mp hc)]
  simp

end QUniBone.Sharedfs
