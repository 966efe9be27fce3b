import QUniBone.Common.Getopt
import Mathlib.Data.List.DropRight

/-!
# Command scripts

`inputline_c` in `inputline.cpp`: a script is read line by line until it ends or executes `.end`,
and the reader then takes interactive input.

* `Reader`, `internalCommand`, `readRound`: the code. `Delivers`: the lines that successive calls
  of `readline` return.
* `expected`: the lines of the script that are neither directives nor skipped.
* `CarefulLine`: no `.ifeq`, nothing missing behind `.wait` and `.print`, and no other line that
  begins like a directive.
* `careful_script_delivered`: such scripts are delivered as they should be.
* `ifeq_delivered`: `.ifeq` itself is delivered.
-/

namespace QUniBone.InputLine

open Numeral
open Getopt (words toLower)

/-! ## Model -/

structure Reader where
  /-- what of the open file is not read yet -/
  file : Option Text
  skipLines : Bool

def Reader.init : Reader := ⟨none, false⟩

/-- A file with this content is opened. -/
def Reader.openFile (r : Reader) (content : Text) : Reader := { r with file := some content }

inductive Fault
  /-- `memmove` reads behind the buffer of the line. -/
  | overread
  /-- A word is too long for its local buffer. -/
  | overflow
  /-- An argument is used that is not in the line. -/
  | missing

/-- What is seen of a directive -/
inductive Effect
  | wait (millis : BitVec 32)
  | print (text : Text)
  | input

/-- `strncasecmp` finds no difference. -/
def strncasecmp (s1 s2 : Text) (n : ℕ) : Bool := (s1.take n).map toLower = (s2.take n).map toLower

def strcasecmp (s1 s2 : Text) : Bool := s1.map toLower = s2.map toLower

/-- `sscanf("%d")`, which assigns nothing if there is no number -/
def scanDecimal (text : Text) : Option (BitVec 32) :=
  if (scan 10 text).2 = text then none else some (BitVec.ofInt 32 (strtol 32 10 text).1)

/-- Whether an internal command is processed, for a line stripped from spaces -/
def internalCommand (r : Reader) (line : Text) : Except Fault (Bool × Reader × List Effect) :=
  -- `.endif` terminates skipped line range
  if strncasecmp line ".endif".toList 6 then .ok (true, { r with skipLines := false }, [])
  else if r.skipLines then .ok (true, r, [])
  else if strncasecmp line ".ifeq".toList 5 then
    match words (line.drop 5) with
    | str1 :: str2 :: _ =>
      if 256 ≤ str1.length ∨ 256 ≤ str2.length then .error .overflow
      -- skip line range until `.endif` if strings are different
      else .ok (false, { r with skipLines := !strcasecmp str1 str2 }, [])
    | _ => .error .missing
  else if strncasecmp line ".wait".toList 5 then
    match scanDecimal (line.drop 5) with
    | none => .error .missing
    | some millis => .ok (true, r, [.wait millis])
  else if strncasecmp line ".print".toList 6 then
    -- `line + 7` may lie behind the zero of the line
    if line.length < 7 then .error .missing else .ok (true, r, [.print (line.drop 7)])
  else if strncasecmp line ".input".toList 6 then .ok (true, r, [.input])
  else if strncasecmp line ".end".toList 3 then .ok (true, { r with file := none }, [])
  else .ok (false, r, [])

/-- What `fgets` reads into a buffer of `size` bytes, and what it leaves -/
def fgets (file : Text) (size : ℕ) : Text × Text :=
  let t := file.take (size - 1)
  let line := t.takeWhile (· ≠ '\n')
  let chunk := if line.length < t.length then line ++ ['\n'] else line
  (chunk, file.drop chunk.length)

/-- The line in the buffer without its end, comment and surrounding blanks -/
def clean (size : ℕ) (chunk : Text) : Except Fault Text :=
  let string := chunk.takeWhile (· ≠ '\x00')
  let line := (string.takeWhile (· ≠ '\n')).takeWhile (· ≠ '#')
  let blanks := (line.takeWhile isSpace).length
  -- `memmove` of as many bytes as the string has, from the first that is not blank
  if size < blanks + line.length then .error .overread
  else .ok ((line.drop blanks).rdropWhile isSpace)

/-- One round of `readline` with a buffer of `size` bytes: the line that is returned, or `none`
for interactive input. -/
def readRound (size : ℕ) (r : Reader) : Except Fault (Option Text × Reader) ⊕ Reader :=
  match r.file with
  | none => .inl (.ok (none, r))
  | some [] => .inr { r with file := none }
  | some (c :: cs) =>
    let s := fgets (c :: cs) size
    match clean size s.1 with
    | .error e => .inl (.error e)
    -- if empty line: repeat
    | .ok [] => .inr { r with file := some s.2 }
    | .ok (d :: ds) =>
      match internalCommand { r with file := some s.2 } (d :: ds) with
      | .error e => .inl (.error e)
      | .ok (true, r', _) => .inr r'
      | .ok (false, r', _) => .inl (.ok (some (d :: ds), r'))

/-- `readline` returns with this outcome. -/
def Readline (size : ℕ) : Reader → Except Fault (Option Text × Reader) → Prop :=
  Loop.Returns (readRound size)

/-- The lines that successive calls return before interactive input -/
inductive Delivers (size : ℕ) : Reader → List Text → Prop
  | interactive {r r' : Reader} : Readline size r (.ok (none, r')) → Delivers size r []
  | line {r r' : Reader} {l : Text} {ls : List Text} : Readline size r (.ok (some l, r')) →
      Delivers size r' ls → Delivers size r (l :: ls)

/-! ## What shall be delivered -/

inductive Directive
  | ifeq
  | endif
  | wait
  | print
  | input
  /-- `.end` -/
  | last
  deriving DecidableEq

def Directive.name : Directive → Text
  | .ifeq => ".ifeq".toList
  | .endif => ".endif".toList
  | .wait => ".wait".toList
  | .print => ".print".toList
  | .input => ".input".toList
  | .last => ".end".toList

/-- The first word of a line, in lower case -/
def keyword (line : Text) : Text := (line.takeWhile (!isSpace ·)).map toLower

/-- The directive that a line is -/
def directive (line : Text) : Option Directive :=
  [Directive.ifeq, .endif, .wait, .print, .input, .last].find? (·.name = keyword line)

/-- The two arguments of `.ifeq` differ, but for upper and lower case. -/
def differ (line : Text) : Bool :=
  match words (line.drop 5) with
  | a :: b :: _ => !strcasecmp a b
  | _ => false

/-- A line of the script, without its comment and surrounding blanks -/
def strip (raw : Text) : Text :=
  ((raw.takeWhile (· ≠ '#')).dropWhile isSpace).rdropWhile isSpace

/-- The lines of the script to be delivered -/
def expected (skip : Bool) : List Text → List Text
  | [] => []
  | raw :: rest =>
    let line := strip raw
    if line = [] then expected skip rest
    else if directive line = some .endif then expected false rest
    else if skip then expected skip rest
    else
      match directive line with
      | some .ifeq => expected (differ line) rest
      | some .last => []
      | some _ => expected skip rest
      | none => line :: expected skip rest

/-- The lines of a file -/
def scriptLines (content : Text) : List Text := content.splitOn '\n'

/-- What the code compares the begin of a line with -/
def marks : List Text :=
  [".endif".toList, ".ifeq".toList, ".wait".toList, ".print".toList, ".input".toList, ".en".toList]

/-- The lines that are read right -/
structure CarefulLine (raw : Text) : Prop where
  /-- There is no zero before the comment. -/
  nonzero : ∀ c ∈ raw.takeWhile (· ≠ '#'), c ≠ '\x00'
  notIfeq : directive (strip raw) ≠ some .ifeq
  /-- `.wait` has its number. -/
  wait : directive (strip raw) = some .wait → scanDecimal ((strip raw).drop 5) ≠ none
  /-- `.print` has its text. -/
  print : directive (strip raw) = some .print → 7 ≤ (strip raw).length
  /-- Other lines do not begin like a directive, or with `.en`. -/
  other : directive (strip raw) = none → ∀ s ∈ marks, ¬ s <+: keyword (strip raw)

theorem carefulLine_iff (raw : Text) : CarefulLine raw ↔
    (raw.takeWhile (· ≠ '#')).all (· ≠ '\x00') = true ∧ directive (strip raw) ≠ some .ifeq ∧
      (directive (strip raw) = some .wait → scanDecimal ((strip raw).drop 5) ≠ none) ∧
      (directive (strip raw) = some .print → 7 ≤ (strip raw).length) ∧
      (directive (strip raw) = none → marks.all (¬ · <+: keyword (strip raw)) = true) := by
  simp only [List.all_eq_true, decide_eq_true_eq]
  constructor
  · intro h
    exact ⟨h.nonzero, h.notIfeq, h.wait, h.print, h.other⟩
  · intro h
    exact ⟨h.1, h.2.1, h.2.2.1, h.2.2.2.1, h.2.2.2.2⟩

instance decidableCarefulLine (raw : Text) : Decidable (CarefulLine raw) :=
  decidable_of_iff _ (carefulLine_iff raw).symm

/-- All lines up to an executed `.end` are read right. -/
inductive Careful : List Text → Prop
  | nil : Careful []
  | last {raw : Text} {rest : List Text} : CarefulLine raw →
      directive (strip raw) = some .last → Careful (raw :: rest)
  | cons {raw : Text} {rest : List Text} : CarefulLine raw → Careful rest → Careful (raw :: rest)

/-- The buffer is sufficiently large: it takes each line, with as many bytes more as it has leading
blanks. -/
structure Fits (size : ℕ) (lines : List Text) : Prop where
  two_le : 2 ≤ size
  length_lt : ∀ raw ∈ lines, raw.length < size
  blanks : ∀ raw ∈ lines, (raw.takeWhile isSpace).length + raw.length ≤ size

/-! ## Lines of a file -/

theorem scriptLines_of_not_mem {raw : Text} (h : '\n' ∉ raw) : scriptLines raw = [raw] :=
  List.splitOn_eq_singleton h

theorem scriptLines_append {raw : Text} (h : '\n' ∉ raw) (rest : Text) :
    scriptLines (raw ++ '\n' :: rest) = raw :: scriptLines rest :=
  List.splitOn_append_cons_self_of_not_mem h rest

/-- A line, and what is behind it -/
theorem exists_line (content : Text) :
    ∃ raw, '\n' ∉ raw ∧ (content = raw ∨ ∃ rest, content = raw ++ '\n' :: rest) := by
  by_cases h : '\n' ∈ content
  · obtain ⟨raw, rest, hsplit, hraw⟩ := List.eq_append_cons_of_mem h
    exact ⟨raw, hraw, .inr ⟨rest, hsplit⟩⟩
  · exact ⟨content, h, .inl rfl⟩

/-- The buffer ends the line. -/
theorem fgets_short {size : ℕ} {raw t : Text} (hraw : '\n' ∉ raw) (ht : raw = t.take (size - 1)) :
    fgets t size = (raw, t.drop raw.length) := by
  have hline : raw.takeWhile (· ≠ '\n') = raw :=
    List.takeWhile_eq_self_iff.mpr fun c hc => by
      simpa using fun heq : c = '\n' => hraw (heq ▸ hc)
  unfold fgets
  simp only [← ht, hline]
  rw [if_neg (Nat.lt_irrefl _)]

/-- The new line ends the line. -/
theorem fgets_line {size : ℕ} {raw rest : Text} (hraw : '\n' ∉ raw)
    (hlen : raw.length < size - 1) :
    fgets (raw ++ '\n' :: rest) size = (raw ++ ['\n'], rest) := by
  obtain ⟨k, hk⟩ : ∃ k, size - 1 = raw.length + (k + 1) := ⟨size - 1 - raw.length - 1, by omega⟩
  have htake : (raw ++ '\n' :: rest).take (size - 1) = raw ++ '\n' :: rest.take k := by
    rw [hk, List.take_length_add_append, List.take_succ_cons]
  have hall : ∀ c ∈ raw, decide (c ≠ '\n') = true := fun c hc => by
    simpa using fun heq : c = '\n' => hraw (heq ▸ hc)
  have hline : (raw ++ '\n' :: rest.take k).takeWhile (· ≠ '\n') = raw := by
    rw [List.takeWhile_append_of_pos hall, List.takeWhile_cons_of_neg (by simp), List.append_nil]
  unfold fgets
  simp only [htake, hline]
  rw [if_pos (by simp)]
  simp

/-- What `fgets` makes of the file: a line without its end or with it, and the lines behind, before
which an empty one may stand. -/
theorem fgets_spec {size : ℕ} (hsize : 2 ≤ size) {content : Text} (hne : content ≠ [])
    (hlen : ∀ raw ∈ scriptLines content, raw.length < size) :
    ∃ raw lines, scriptLines content = raw :: lines ∧ '\n' ∉ raw ∧
      ((fgets content size).1 = raw ∨ (fgets content size).1 = raw ++ ['\n']) ∧
      (scriptLines (fgets content size).2 = lines ∨
        scriptLines (fgets content size).2 = [] :: lines) ∧
      (fgets content size).2.length < content.length := by
  obtain ⟨raw, hraw, hcontent | ⟨rest, hcontent⟩⟩ := exists_line content
  · -- the last line
    subst hcontent
    have hlines := scriptLines_of_not_mem hraw
    have hsize' := hlen content (by rw [hlines]; exact List.mem_singleton_self content)
    have hfgets := fgets_short hraw
      (List.take_of_length_le (show content.length ≤ size - 1 by omega)).symm
    rw [hfgets, List.drop_length]
    exact ⟨content, [], hlines, hraw, .inl rfl, .inr rfl, List.length_pos_of_ne_nil hne⟩
  · subst hcontent
    have hlines := scriptLines_append hraw rest
    have hsize' := hlen raw (by rw [hlines]; exact List.mem_cons_self)
    refine ⟨raw, scriptLines rest, hlines, hraw, ?_⟩
    by_cases hshort : raw.length < size - 1
    · rw [fgets_line hraw hshort]
      refine ⟨.inr rfl, .inl rfl, ?_⟩
      simp only [List.length_append, List.length_cons]
      omega
    · -- the new line is left for the next call
      have hfull : raw.length = size - 1 := by omega
      have htake : raw = (raw ++ '\n' :: rest).take (size - 1) := by
        rw [← hfull, List.take_left]
      rw [fgets_short hraw htake, List.drop_left]
      refine ⟨.inl rfl, .inr (scriptLines_append List.not_mem_nil rest), ?_⟩
      simp only [List.length_append, List.length_cons]
      omega

/-! ## Clean lines -/

theorem takeWhile_chunk {raw : Text} (hraw : '\n' ∉ raw)
    (hzero : ∀ c ∈ raw.takeWhile (· ≠ '#'), c ≠ '\x00') {chunk : Text}
    (hchunk : chunk = raw ∨ chunk = raw ++ ['\n']) :
    ((chunk.takeWhile (· ≠ '\x00')).takeWhile (· ≠ '\n')).takeWhile (· ≠ '#') =
      raw.takeWhile (· ≠ '#') := by
  induction raw generalizing chunk with
  | nil => rcases hchunk with hchunk | hchunk <;> subst hchunk <;> decide
  | cons c cs ih =>
    obtain ⟨tail, hcons, htail⟩ : ∃ tail, chunk = c :: tail ∧
        (tail = cs ∨ tail = cs ++ ['\n']) := by
      rcases hchunk with hchunk | hchunk
      · exact ⟨cs, hchunk, .inl rfl⟩
      · exact ⟨cs ++ ['\n'], hchunk, .inr rfl⟩
    have hnl : c ≠ '\n' := fun heq => hraw (heq ▸ List.mem_cons_self)
    by_cases hc : c = '#'
    · -- the comment begins
      subst hc hcons
      simp
    · have htake : (c :: cs).takeWhile (· ≠ '#') = c :: cs.takeWhile (· ≠ '#') := by simp [hc]
      rw [htake] at hzero ⊢
      have hc0 : c ≠ '\x00' := hzero c List.mem_cons_self
      rw [← ih (fun h => hraw (List.mem_cons_of_mem c h))
        (fun d hd => hzero d (List.mem_cons_of_mem c hd)) htail, hcons]
      simp [hc, hc0, hnl]

theorem takeWhile_takeWhile_length_le {p q : Char → Bool} (l : Text) :
    ((l.takeWhile p).takeWhile q).length ≤ (l.takeWhile q).length := by
  induction l with
  | nil => simp
  | cons c cs ih =>
    cases hp : p c <;> cases hq : q c <;> simp [hp, hq]
    exact ih

theorem drop_takeWhile_length (p : Char → Bool) (l : Text) :
    l.drop (l.takeWhile p).length = l.dropWhile p := by
  induction l with
  | nil => rfl
  | cons c cs ih =>
    cases hp : p c
    · simp [hp]
    · simpa [hp] using ih

/-- The buffer then holds the line of the script. -/
theorem clean_eq {size : ℕ} {raw chunk : Text} (hraw : '\n' ∉ raw)
    (hzero : ∀ c ∈ raw.takeWhile (· ≠ '#'), c ≠ '\x00')
    (hchunk : chunk = raw ∨ chunk = raw ++ ['\n'])
    (hfits : (raw.takeWhile isSpace).length + raw.length ≤ size) :
    clean size chunk = .ok (strip raw) := by
  have hblanks := takeWhile_takeWhile_length_le (p := (· ≠ '#')) (q := isSpace) raw
  have hlen : (raw.takeWhile (· ≠ '#')).length ≤ raw.length := (List.takeWhile_prefix _).length_le
  unfold clean strip
  simp only [takeWhile_chunk hraw hzero hchunk]
  rw [if_neg (by omega), drop_takeWhile_length]

/-! ## Directives -/

theorem isSpace_toLower {c : Char} (h : isSpace (toLower c) = false) : isSpace c = false := by
  by_contra hc
  rw [Bool.not_eq_false] at hc
  have hlow : toLower c = c := by
    unfold toLower
    rw [if_neg]
    unfold isSpace at hc
    rw [decide_eq_true_eq] at hc
    rcases hc with hc | hc
    · subst hc
      decide
    · omega
  rw [hlow, hc] at h
  cases h

/-- A text without blanks and capital letters that a line begins with begins its first word. -/
theorem strncasecmp_iff {s : Text} (hs : ∀ c ∈ s, isSpace c = false ∧ toLower c = c)
    (line : Text) : strncasecmp line s s.length = true ↔ s <+: keyword line := by
  induction s generalizing line with
  | nil => simp [strncasecmp]
  | cons a s ih =>
    obtain ⟨hblank, hlower⟩ := hs a List.mem_cons_self
    have ih := fun cs => ih (fun c hc => hs c (List.mem_cons_of_mem a hc)) cs
    cases line with
    | nil => simp [strncasecmp, keyword]
    | cons c cs =>
      have hstep : strncasecmp (c :: cs) (a :: s) (a :: s).length = true ↔
          toLower c = a ∧ strncasecmp cs s s.length = true := by
        simp [strncasecmp, hlower]
      rw [hstep, ih]
      cases hc : isSpace c
      · simp [keyword, hc, List.cons_prefix_cons, eq_comm]
      · -- the first word is empty
        have hne : toLower c ≠ a := fun heq => by
          rw [isSpace_toLower (heq ▸ hblank)] at hc
          cases hc
        simp [keyword, hc, hne]

theorem directive_eq_some {line : Text} {d : Directive} (h : directive line = some d) :
    keyword line = d.name := by
  have hname := List.find?_some h
  rw [decide_eq_true_eq] at hname
  exact hname.symm

/-- What a directive other than `.ifeq` leaves -/
def Reader.after (r : Reader) (d : Option Directive) : Reader :=
  if d = some .last then { r with file := none } else r

theorem strncasecmp_mark (line : Text) :
    ∀ s ∈ marks, strncasecmp line s s.length = decide (s <+: keyword line) := by
  intro s hs
  rw [Bool.eq_iff_iff, decide_eq_true_eq]
  have hlower : marks.all (fun s => s.all fun c => !isSpace c && toLower c = c) = true := by decide
  refine strncasecmp_iff (fun c hc => ?_) line
  have hchar := List.all_eq_true.mp (List.all_eq_true.mp hlower s hs) c hc
  simpa using hchar

/-- A careful line is processed iff it is a directive. -/
theorem internalCommand_of_careful {raw : Text} (h : CarefulLine raw) (content : Option Text) :
    ∃ effects, internalCommand ⟨content, false⟩ (strip raw) = .ok ((directive (strip raw)).isSome,
      Reader.after ⟨content, false⟩ (directive (strip raw)), effects) := by
  have hcmp := strncasecmp_mark (strip raw)
  cases hd : directive (strip raw) with
  | none =>
    have hno : ∀ s ∈ marks, strncasecmp (strip raw) s s.length = false := fun s hs => by
      rw [hcmp s hs, decide_eq_false (h.other hd s hs)]
    have hendif : strncasecmp (strip raw) ".endif".toList 6 = false := hno _ (by decide)
    have hifeq : strncasecmp (strip raw) ".ifeq".toList 5 = false := hno _ (by decide)
    have hwait : strncasecmp (strip raw) ".wait".toList 5 = false := hno _ (by decide)
    have hprint : strncasecmp (strip raw) ".print".toList 6 = false := hno _ (by decide)
    have hinput : strncasecmp (strip raw) ".input".toList 6 = false := hno _ (by decide)
    have hend : strncasecmp (strip raw) ".end".toList 3 = false := hno ".en".toList (by decide)
    refine ⟨[], ?_⟩
    unfold internalCommand
    rw [hendif, hifeq, hwait, hprint, hinput, hend]
    rfl
  | some d =>
    have hkey := directive_eq_some hd
    rw [hkey] at hcmp
    -- the name of a directive is found in its place, as only `.endif` begins like another one
    have hendif : strncasecmp (strip raw) ".endif".toList 6 = decide (d = .endif) :=
      (hcmp _ (by decide)).trans (by cases d <;> decide)
    have hifeq : strncasecmp (strip raw) ".ifeq".toList 5 = decide (d = .ifeq) :=
      (hcmp _ (by decide)).trans (by cases d <;> decide)
    have hwait : strncasecmp (strip raw) ".wait".toList 5 = decide (d = .wait) :=
      (hcmp _ (by decide)).trans (by cases d <;> decide)
    have hprint : strncasecmp (strip raw) ".print".toList 6 = decide (d = .print) :=
      (hcmp _ (by decide)).trans (by cases d <;> decide)
    have hinput : strncasecmp (strip raw) ".input".toList 6 = decide (d = .input) :=
      (hcmp _ (by decide)).trans (by cases d <;> decide)
    have hend : strncasecmp (strip raw) ".end".toList 3 = decide (d = .endif ∨ d = .last) :=
      (hcmp ".en".toList (by decide)).trans (by cases d <;> decide)
    unfold internalCommand
    rw [hendif, hifeq, hwait, hprint, hinput, hend]
    cases d with
    | ifeq => exact absurd hd h.notIfeq
    | endif => exact ⟨[], rfl⟩
    | wait =>
      cases hscan : scanDecimal ((strip raw).drop 5) with
      | none => exact absurd hscan (h.wait hd)
      | some millis => exact ⟨[.wait millis], rfl⟩
    | print =>
      refine ⟨[.print ((strip raw).drop 7)], ?_⟩
      have hlen : ¬(strip raw).length < 7 := Nat.not_lt.mpr (h.print hd)
      simp only [hlen, reduceCtorEq, decide_false, decide_true, Bool.false_eq_true, if_false,
        if_true]
      rfl
    | input => exact ⟨[.input], rfl⟩
    | last => exact ⟨[], rfl⟩

/-! ## Scripts -/

theorem Delivers.of_inr {size : ℕ} {r r' : Reader} {ls : List Text}
    (h : readRound size r = .inr r') (hrest : Delivers size r' ls) : Delivers size r ls := by
  cases hrest with
  | interactive hr => exact .interactive (Loop.returns_of_inr h hr)
  | line hr hls => exact .line (Loop.returns_of_inr h hr) hls

theorem Delivers.of_inl {size : ℕ} {r r' : Reader} {l : Text} {ls : List Text}
    (h : readRound size r = .inl (.ok (some l, r'))) (hrest : Delivers size r' ls) :
    Delivers size r (l :: ls) :=
  .line (Loop.returns_of_inl h) hrest

/-- There is only one answer. -/
theorem Delivers.unique {size : ℕ} {r : Reader} {ls ls' : List Text} (h : Delivers size r ls)
    (h' : Delivers size r ls') : ls = ls' := by
  induction h generalizing ls' with
  | interactive hr =>
    cases h' with
    | interactive => rfl
    | line hr' _ => cases hr.unique hr'
  | line hr _ ih =>
    cases h' with
    | interactive hr' => cases hr.unique hr'
    | line hr' hls' =>
      cases hr.unique hr'
      rw [ih hls']

theorem delivers_closed (size : ℕ) (skip : Bool) : Delivers size ⟨none, skip⟩ [] :=
  .interactive (Loop.returns_of_inl rfl)

theorem Fits.rest {size : ℕ} {raw : Text} {lines lines' : List Text} (h : Fits size (raw :: lines))
    (hlines : lines' = lines ∨ lines' = [] :: lines) : Fits size lines' := by
  have hmem : ∀ l ∈ lines', l ∈ raw :: lines ∨ l = [] := by
    intro l hl
    rcases hlines with heq | heq <;> subst heq
    · exact .inl (List.mem_cons_of_mem raw hl)
    · rcases List.mem_cons.mp hl with hl | hl
      · exact .inr hl
      · exact .inl (List.mem_cons_of_mem raw hl)
  have htwo := h.two_le
  refine ⟨htwo, fun l hl => ?_, fun l hl => ?_⟩
  · rcases hmem l hl with hl | hl
    · exact h.length_lt l hl
    · subst hl
      show 0 < size
      omega
  · rcases hmem l hl with hl | hl
    · exact h.blanks l hl
    · subst hl
      exact Nat.zero_le size

theorem carefulLine_nil : CarefulLine [] := by decide

theorem expected_empty {raw : Text} (h : strip raw = []) (skip : Bool) (rest : List Text) :
    expected skip (raw :: rest) = expected skip rest := by
  rw [expected, if_pos h]

/-- The line that `fgets` sees as an empty one behind a full buffer changes nothing. -/
theorem rest_empty {lines lines' : List Text} (h : lines' = lines ∨ lines' = [] :: lines) :
    expected false lines' = expected false lines ∧ (Careful lines → Careful lines') := by
  rcases h with heq | heq <;> subst heq
  · exact ⟨rfl, id⟩
  · exact ⟨expected_empty rfl false lines, fun hc => .cons carefulLine_nil hc⟩

theorem Careful.head {raw : Text} {rest : List Text} (h : Careful (raw :: rest)) :
    CarefulLine raw := by
  cases h with
  | last h _ => exact h
  | cons h _ => exact h

theorem Careful.tail {raw : Text} {rest : List Text} (h : Careful (raw :: rest))
    (hlast : directive (strip raw) ≠ some .last) : Careful rest := by
  cases h with
  | last _ heq => exact absurd heq hlast
  | cons _ h => exact h

theorem directive_nil : directive [] = none := by decide

/-- A line that is not empty, unless lines are skipped -/
theorem expected_cons {raw : Text} (h : strip raw ≠ []) (rest : List Text) :
    expected false (raw :: rest) =
      match directive (strip raw) with
      | some .ifeq => expected (differ (strip raw)) rest
      | some .last => []
      | some _ => expected false rest
      | none => strip raw :: expected false rest := by
  rw [expected, if_neg h]
  split_ifs with hendif hskip
  · rw [hendif]
  · contradiction
  · rfl

theorem expected_line {raw : Text} (h : strip raw ≠ []) (hd : directive (strip raw) = none)
    (rest : List Text) : expected false (raw :: rest) = strip raw :: expected false rest := by
  rw [expected_cons h, hd]

theorem strip_ne_nil {raw : Text} {d : Directive} (hd : directive (strip raw) = some d) :
    strip raw ≠ [] := by
  intro heq
  rw [heq, directive_nil] at hd
  cases hd

theorem expected_last {raw : Text} (hd : directive (strip raw) = some .last) (rest : List Text) :
    expected false (raw :: rest) = [] := by
  rw [expected_cons (strip_ne_nil hd), hd]

theorem expected_directive {raw : Text} {d : Directive} (hd : directive (strip raw) = some d)
    (hifeq : d ≠ .ifeq) (hlast : d ≠ .last) (rest : List Text) :
    expected false (raw :: rest) = expected false rest := by
  rw [expected_cons (strip_ne_nil hd), hd]
  cases d with
  | ifeq => exact absurd rfl hifeq
  | last => exact absurd rfl hlast
  | _ => rfl

theorem readRound_command {size : ℕ} {c : Char} {cs line : Text} {b : Bool} {r : Reader}
    {effects : List Effect} (hclean : clean size (fgets (c :: cs) size).1 = .ok line)
    (hne : line ≠ [])
    (h : internalCommand ⟨some (fgets (c :: cs) size).2, false⟩ line = .ok (b, r, effects)) :
    readRound size ⟨some (c :: cs), false⟩ =
      if b then .inr r else .inl (.ok (some line, r)) := by
  obtain ⟨d, ds, heq⟩ := List.exists_cons_of_ne_nil hne
  subst heq
  cases b <;> simp only [readRound, hclean, h] <;> rfl

theorem delivers_of_careful {size : ℕ} {content : Text} (hfits : Fits size (scriptLines content))
    (hcareful : Careful (scriptLines content)) :
    Delivers size ⟨some content, false⟩ (expected false (scriptLines content)) := by
  -- by induction on what is left of the file
  induction hn : content.length using Nat.strong_induction_on generalizing content with
  | _ n ih =>
  cases content with
  | nil => exact .of_inr rfl (delivers_closed size false)
  | cons c cs =>
    obtain ⟨raw, lines, hlines, hraw, hchunk, hrest, hlt⟩ :=
      fgets_spec hfits.two_le (List.cons_ne_nil c cs) hfits.length_lt
    rw [hlines] at hfits hcareful ⊢
    have hline := hcareful.head
    have hmem := List.mem_cons_self (a := raw) (l := lines)
    have hclean := clean_eq hraw hline.nonzero hchunk (hfits.blanks raw hmem)
    obtain ⟨hexpected, hkept⟩ := rest_empty hrest
    -- what the lines behind this one give
    have hnext : directive (strip raw) ≠ some .last →
        Delivers size ⟨some (fgets (c :: cs) size).2, false⟩ (expected false lines) := by
      intro hlast
      rw [← hexpected]
      exact ih _ (hn ▸ hlt) (hfits.rest hrest) (hkept (hcareful.tail hlast)) rfl
    obtain ⟨effects, hcommand⟩ := internalCommand_of_careful hline (some (fgets (c :: cs) size).2)
    by_cases hne : strip raw = []
    · rw [expected_empty hne]
      refine .of_inr ?_ (hnext (by rw [hne]; decide))
      simp only [readRound, hclean, hne]
    · have hround := readRound_command hclean hne hcommand
      cases hd : directive (strip raw) with
      | none =>
        rw [hd] at hround hnext
        rw [expected_line hne hd]
        exact .of_inl hround (hnext (by decide))
      | some d =>
        rw [hd] at hround hnext
        by_cases hlast : d = .last
        · subst hlast
          rw [expected_last hd]
          exact .of_inr hround (delivers_closed size false)
        · have hd' : some d ≠ some Directive.last := fun heq => hlast (Option.some.inj heq)
          have hifeq : d ≠ .ifeq := fun heq => hline.notIfeq (heq ▸ hd)
          rw [expected_directive hd hifeq hlast]
          rw [Reader.after, if_neg hd'] at hround
          exact .of_inr hround (hnext hd')

/-- A careful script, opened while no lines are skipped, is delivered as it should be. -/
theorem careful_script_delivered {size : ℕ} {r : Reader} (hskip : r.skipLines = false) {content : Text}
    (hfits : Fits size (scriptLines content)) (hcareful : Careful (scriptLines content))
    (ls : List Text) :
    Delivers size (r.openFile content) ls ↔ ls = expected false (scriptLines content) := by
  have hopen : r.openFile content = ⟨some content, false⟩ := by rw [Reader.openFile, hskip]
  have hdelivers := delivers_of_careful hfits hcareful
  rw [hopen]
  constructor
  · intro h
    exact h.unique hdelivers
  · intro h
    rw [h]
    exact hdelivers

theorem delivered_four_lines : Delivers 80
    (Reader.init.openFile "sd rl1 # disk\n.wait 5000\n p\n.end\n.ifeq".toList)
      ["sd rl1".toList, "p".toList] := by
  refine (careful_script_delivered rfl ⟨by decide, by decide, by decide⟩ ?_ _).mpr (by decide)
  exact .cons (by decide) (.cons (by decide) (.cons (by decide) (.last (by decide) (by decide))))

/-- `.ifeq` is not consumed. -/
theorem ifeq_delivered : ¬Delivers 80 (Reader.init.openFile ".ifeq a a\n.endif".toList)
    (expected false (scriptLines ".ifeq a a\n.endif".toList)) := by
  have hline : Delivers 80 (Reader.init.openFile ".ifeq a a\n.endif".toList)
      [".ifeq a a".toList] := by
    have hifeq : readRound 80 ⟨some ".ifeq a a\n.endif".toList, false⟩ =
        .inl (.ok (some ".ifeq a a".toList, ⟨some ".endif".toList, false⟩)) := rfl
    have hendif : readRound 80 ⟨some ".endif".toList, false⟩ = .inr ⟨some [], false⟩ := rfl
    exact .of_inl hifeq (.of_inr hendif (.of_inr rfl (delivers_closed 80 false)))
  intro h
  exact absurd (h.unique hline) (by decide)

end QUniBone.InputLine
