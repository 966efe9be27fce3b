import QUniBone.Sharedfs.Names
import QUniBone.Lib.WeakOrder
import Mathlib.Data.Char
import Mathlib.Data.List.Lex
import Mathlib.Logic.Function.Basic

/-!
# Sorting the root directory

`filesystem_base.cpp`: the files of a directory by sort group, and then by name. A group is a
regular expression, which a DEC file system adds in its constructor. Files are pointers.

* `sortFileComp`: the comparison.
* `assignGroups`, `sortFiles`: `filesystem_base_c::sort()`, whose list is a copy.
* `sort`: `filesystem_rt11_c::sort()` and `filesystem_xxdp_c::sort()`.
* `groupOf`: the group of a name.
* `sort_orders_iff`: for which files the comparison is an order, and for which directories they
  are sorted.
-/

namespace QUniBone.Sharedfs

/-- `file_base_c`, as far as it is sorted -/
structure SortedFile where
  filename : Text
  sortGroup : ℤ

/-- `sort_group_regex_c`, with the names in which the regular expression is found -/
structure SortGroupRegex where
  group : ℕ
  patternConst : Text
  patternRegex : Text → Bool

/-- `SORT_NOGROUP` -/
def sortNogroup : ℤ := 0xffffff

/-- `sort_file_comp()`: what is returned for the first group being the lower one is not zero. -/
def sortFileComp (f1 f2 : SortedFile) : Bool :=
  if f1.sortGroup < f2.sortGroup then true else decide (f1.filename < f2.filename)

/-- `strcasecmp()` is zero. -/
def sameNoCase (s t : Text) : Bool := s.map toUpper = t.map toUpper

/-- `sort_add_group_pattern()`, given what `std::regex` makes of a text: nothing if it throws -/
def sortAddGroupPattern (compile : Text → Option (Text → Bool)) (regexes : List SortGroupRegex)
    (pattern : Text) : List SortGroupRegex :=
  match compile pattern with
  | some patternRegex => regexes ++ [⟨regexes.length, pattern, patternRegex⟩]
  | none => regexes

/-! ## The groups of the files -/

section Groups

variable {ι : Type} [DecidableEq ι] {file : ι → SortedFile} {i : ι} {files : List ι}

def setSortGroup (file : ι → SortedFile) (i : ι) (group : ℤ) : ι → SortedFile :=
  Function.update file i { file i with sortGroup := group }

/-- The first group that fits, if any: the inner loop over `j`. -/
def matchGroup (fits : SortGroupRegex → Text → Bool) (regexes : List SortGroupRegex)
    (file : ι → SortedFile) (i : ι) : ι → SortedFile :=
  match regexes.findIdx? (fits · (file i).filename) with
  | some j => setSortGroup file i j
  | none => file

/-- The three loops of `sort()` over the files -/
def assignGroups (regexes : List SortGroupRegex) (file : ι → SortedFile) (files : List ι) :
    ι → SortedFile :=
  let file := files.foldl (setSortGroup · · sortNogroup) file
  let file := files.foldl (matchGroup (sameNoCase ·.patternConst ·) regexes) file
  files.foldl (matchGroup (·.patternRegex ·) regexes) file

/-- The group that a name belongs to: that of the first regular expression found in it, else of
the first pattern it is equal to. -/
def groupOf (regexes : List SortGroupRegex) (name : Text) : ℤ :=
  match regexes.findIdx? (·.patternRegex name) with
  | some j => j
  | none =>
    match regexes.findIdx? (sameNoCase ·.patternConst name) with
    | some j => j
    | none => sortNogroup

/-- What a loop does to the group of one file, given the name. -/
theorem foldl_groups {step : (ι → SortedFile) → ι → ι → SortedFile} {g : Text → ℤ → ℤ}
    (hstep : ∀ file i, step file i = setSortGroup file i (g (file i).filename (file i).sortGroup))
    (hidem : ∀ name group, g name (g name group) = g name group) (file : ι → SortedFile)
    (files : List ι) (i : ι) :
    files.foldl step file i =
      if i ∈ files then ⟨(file i).filename, g (file i).filename (file i).sortGroup⟩ else file i := by
  induction files generalizing file with
  | nil => simp
  | cons k files ih =>
    rw [List.foldl_cons, ih, hstep]
    by_cases hk : i = k
    · subst hk
      by_cases hi : i ∈ files <;> simp [setSortGroup, hi, hidem]
    · simp [setSortGroup, hk]

theorem matchGroup_eq (fits : SortGroupRegex → Text → Bool) (regexes : List SortGroupRegex)
    (file : ι → SortedFile) (i : ι) :
    matchGroup fits regexes file i = setSortGroup file i
      (((regexes.findIdx? (fits · (file i).filename)).map Nat.cast).getD (file i).sortGroup) := by
  unfold matchGroup
  cases h : regexes.findIdx? (fits · (file i).filename) with
  | some j => simp
  | none => simp [setSortGroup]

theorem foldl_matchGroup (fits : SortGroupRegex → Text → Bool) (regexes : List SortGroupRegex)
    (file : ι → SortedFile) (files : List ι) (i : ι) :
    files.foldl (matchGroup fits regexes) file i =
      if i ∈ files then ⟨(file i).filename,
        ((regexes.findIdx? (fits · (file i).filename)).map Nat.cast).getD (file i).sortGroup⟩
      else file i := by
  refine foldl_groups (g := fun name group =>
    ((regexes.findIdx? (fits · name)).map Nat.cast).getD group) ?_ ?_ file files i
  · exact matchGroup_eq fits regexes
  · intro name group
    cases regexes.findIdx? (fits · name) <;> simp

theorem foldl_setSortGroup (file : ι → SortedFile) (files : List ι) (i : ι) :
    files.foldl (setSortGroup · · sortNogroup) file i =
      if i ∈ files then ⟨(file i).filename, sortNogroup⟩ else file i :=
  foldl_groups (g := fun _ _ => sortNogroup) (fun _ _ => rfl) (fun _ _ => rfl) file files i

/-- Every file of the list has the group of its name, and nothing else changes. -/
theorem assignGroups_apply (regexes : List SortGroupRegex) (file : ι → SortedFile)
    (files : List ι) (i : ι) :
    assignGroups regexes file files i =
      if i ∈ files then ⟨(file i).filename, groupOf regexes (file i).filename⟩ else file i := by
  simp only [assignGroups, foldl_matchGroup, foldl_setSortGroup]
  by_cases hi : i ∈ files
  · simp only [hi, if_true, groupOf]
    cases regexes.findIdx? (·.patternRegex (file i).filename) <;>
      cases regexes.findIdx? (sameNoCase ·.patternConst (file i).filename) <;> simp
  · simp [hi]

end Groups

/-! ## Sorting -/

section Sorting

variable {ι : Type} [DecidableEq ι]

/-- The files in memory, and the list of the root directory. -/
structure RootDir (ι : Type) where
  file : ι → SortedFile
  files : List ι

/-- `filesystem_base_c::sort()`: the files with their groups, and `files` as the function leaves
it, which is its own. -/
def sortFiles (regexes : List SortGroupRegex) (file : ι → SortedFile) (files : List ι) :
    Option ((ι → SortedFile) × List ι) :=
  let file := assignGroups regexes file files
  (stdSort (fun a b => sortFileComp (file a) (file b)) files).map (file, ·)

/-- `sort()` of the DEC file systems: `rootdir->files` is passed by value. -/
def RootDir.sort (regexes : List SortGroupRegex) (d : RootDir ι) : Option (RootDir ι) :=
  (sortFiles regexes d.file d.files).map fun sorted => { d with file := sorted.1 }

/-- First by sort group, then by name -/
def InOrder (f1 f2 : SortedFile) : Prop :=
  f1.sortGroup < f2.sortGroup ∨ f1.sortGroup = f2.sortGroup ∧ f1.filename ≤ f2.filename

instance decidableInOrder (f1 f2 : SortedFile) : Decidable (InOrder f1 f2) :=
  inferInstanceAs (Decidable (_ ∨ _))

def RootDir.Sorted (d : RootDir ι) : Prop :=
  d.files.Pairwise fun a b => InOrder (d.file a) (d.file b)

omit [DecidableEq ι] in
instance RootDir.decidableSorted (d : RootDir ι) : Decidable d.Sorted :=
  inferInstanceAs (Decidable (List.Pairwise _ _))

/-- The names ascend along the directory, and so do the groups of the names. -/
structure RootDir.Ascending (regexes : List SortGroupRegex) (d : RootDir ι) : Prop where
  names : d.files.Pairwise fun a b => (d.file a).filename ≤ (d.file b).filename
  groups : d.files.Pairwise fun a b =>
    groupOf regexes (d.file a).filename ≤ groupOf regexes (d.file b).filename

omit [DecidableEq ι] in
/-- The comparison orders files iff none of an earlier group has the greater name. -/
theorem sortFileComp_strictWeakOn_iff (file : ι → SortedFile) (files : List ι) :
    StrictWeakOn (fun a b => sortFileComp (file a) (file b)) files ↔
      ∀ a ∈ files, ∀ b ∈ files, (file a).sortGroup < (file b).sortGroup →
        (file a).filename ≤ (file b).filename := by
  have hcomp : (fun a b => sortFileComp (file a) (file b)) =
      ltByKeys (fun i => (file i).sortGroup) (fun i => (file i).filename) := by
    funext a b
    unfold sortFileComp ltByKeys
    split <;> simp_all
  rw [hcomp, strictWeakOn_ltByKeys_iff]
  constructor
  · intro h a ha b hb
    exact h ha hb
  · intro h a ha b hb
    exact h a ha b hb

/-- What `sort()` leaves behind: the groups, and the list as it was. -/
theorem RootDir.sort_eq_some_iff {regexes : List SortGroupRegex} {d d' : RootDir ι} :
    d.sort regexes = some d' ↔
      (∀ a ∈ d.files, ∀ b ∈ d.files,
        groupOf regexes (d.file a).filename < groupOf regexes (d.file b).filename →
          (d.file a).filename ≤ (d.file b).filename) ∧
      d' = ⟨assignGroups regexes d.file d.files, d.files⟩ := by
  have hweak : StrictWeakOn (fun a b => sortFileComp (assignGroups regexes d.file d.files a)
      (assignGroups regexes d.file d.files b)) d.files ↔
      ∀ a ∈ d.files, ∀ b ∈ d.files,
        groupOf regexes (d.file a).filename < groupOf regexes (d.file b).filename →
          (d.file a).filename ≤ (d.file b).filename := by
    rw [sortFileComp_strictWeakOn_iff]
    refine forall₂_congr fun a ha => forall₂_congr fun b hb => ?_
    simp only [assignGroups_apply, ha, hb, if_true]
  rw [← hweak]
  simp only [sort, sortFiles, Option.map_map, Option.map_eq_some_iff, Function.comp_apply]
  constructor
  · rintro ⟨l, hl, rfl⟩
    exact ⟨strictWeakOn_of_stdSort hl, rfl⟩
  · rintro ⟨h, rfl⟩
    exact ⟨_, stdSort_of_strictWeakOn h, rfl⟩

/-- With their groups the files are in order iff names and groups both ascend, as long as no file
of an earlier group has the greater name. -/
theorem RootDir.sorted_iff_ascending {regexes : List SortGroupRegex} {d : RootDir ι}
    (hagree : ∀ a ∈ d.files, ∀ b ∈ d.files,
      groupOf regexes (d.file a).filename < groupOf regexes (d.file b).filename →
        (d.file a).filename ≤ (d.file b).filename) :
    (RootDir.mk (assignGroups regexes d.file d.files) d.files).Sorted ↔ d.Ascending regexes := by
  have hgroups : (RootDir.mk (assignGroups regexes d.file d.files) d.files).Sorted ↔
      d.files.Pairwise fun a b =>
        InOrder ⟨(d.file a).filename, groupOf regexes (d.file a).filename⟩
          ⟨(d.file b).filename, groupOf regexes (d.file b).filename⟩ := by
    refine List.Pairwise.iff_of_mem ?_
    intro a b ha hb
    simp only [assignGroups_apply, ha, hb, if_true]
  rw [hgroups]
  constructor
  · intro h
    constructor
    · refine List.Pairwise.imp_of_mem ?_ h
      rintro a b ha hb (hlt | ⟨-, hle⟩)
      · exact hagree a ha b hb hlt
      · exact hle
    · refine h.imp ?_
      rintro a b (hlt | ⟨heq, -⟩)
      · exact hlt.le
      · exact heq.le
  · intro h
    refine (h.names.and h.groups).imp ?_
    intro a b hab
    rcases lt_or_eq_of_le hab.2 with hlt | heq
    · exact Or.inl hlt
    · exact Or.inr ⟨heq, hab.1⟩

omit [DecidableEq ι] in
theorem RootDir.Ascending.agree {regexes : List SortGroupRegex} {d : RootDir ι}
    (h : d.Ascending regexes) : ∀ a ∈ d.files, ∀ b ∈ d.files,
      groupOf regexes (d.file a).filename < groupOf regexes (d.file b).filename →
        (d.file a).filename ≤ (d.file b).filename := by
  intro a ha b hb
  exact monovaryOn_of_pairwise (f := fun i => groupOf regexes (d.file i).filename)
    (g := fun i => (d.file i).filename) h.groups h.names ha hb

/-- The comparison is a strict weak order on the files iff none of an earlier group has the
greater name; and `sort()` leaves the root directory sorted iff its names ascend already, and
their groups do. -/
theorem sort_orders_iff (files : List SortedFile) (regexes : List SortGroupRegex)
    (d : RootDir ι) :
    (StrictWeakOn sortFileComp files ↔
      ∀ a ∈ files, ∀ b ∈ files, a.sortGroup < b.sortGroup → a.filename ≤ b.filename) ∧
    ((∃ d', d.sort regexes = some d' ∧ d'.files.Perm d.files ∧ d'.Sorted) ↔
      d.Ascending regexes) := by
  constructor
  · exact sortFileComp_strictWeakOn_iff id files
  constructor
  · rintro ⟨d', hsort, -, hsorted⟩
    obtain ⟨hagree, rfl⟩ := RootDir.sort_eq_some_iff.mp hsort
    exact (RootDir.sorted_iff_ascending hagree).mp hsorted
  · intro h
    refine ⟨_, RootDir.sort_eq_some_iff.mpr ⟨h.agree, rfl⟩, List.Perm.refl _, ?_⟩
    exact (RootDir.sorted_iff_ascending h.agree).mpr h

end Sorting

/-! ## The groups of RT-11 -/

inductive RegexToken
  | char (c : Char)
  /-- `.*` -/
  | anything

/-- The regular expressions that the file systems use: characters, of which `\.` is one, and
`.*`. -/
def parseRegex : Text → List RegexToken
  | '\\' :: c :: p => .char c :: parseRegex p
  | '.' :: '*' :: p => .anything :: parseRegex p
  | c :: p => .char c :: parseRegex p
  | [] => []

/-- The text begins with a match. -/
def matchHere : List RegexToken → Text → Bool
  | [], _ => true
  | .char c :: tokens, x :: s => toUpper x = toUpper c ∧ matchHere tokens s
  | .char _ :: _, [] => false
  | .anything :: tokens, s => s.tails.any (matchHere tokens)

/-- `regex_search()`, with `icase` -/
def regexSearch (tokens : List RegexToken) (s : Text) : Bool := s.tails.any (matchHere tokens)

/-- The groups that `filesystem_rt11_c` adds -/
def rt11SortGroups : List SortGroupRegex :=
  ["RT11.*\\.SYS", "DD\\.SYS", "SWAP\\.SYS", "TT\\.SYS", "DL\\.SYS", "STARTS\\.COM",
    "DIR\\.SAV", "DUP\\.SAV"].foldl
    (fun regexes pattern => sortAddGroupPattern (fun p => some (regexSearch (parseRegex p))) regexes
      pattern.toList) []

example : groupOf rt11SortGroups "rt11sj.sys".toList = 0 := by decide

/-- Two files, the second of which has the lower name. -/
def rootOf (first second : Text) : RootDir Bool where
  file b := ⟨if b then first else second, sortNogroup⟩
  files := [true, false]

/-- By the groups the swap file is before the handler of the RL disk, and by the names it is
behind. Two files without a group stay in the wrong order. -/
theorem swap_handler_unordered :
    ¬ StrictWeakOn sortFileComp [⟨"SWAP.SYS".toList, 2⟩, ⟨"DL.SYS".toList, 4⟩] ∧
      (rootOf "SWAP.SYS".toList "DL.SYS".toList).sort rt11SortGroups = none ∧
      ((rootOf "B.TXT".toList "A.TXT".toList).sort rt11SortGroups).map (fun d => decide d.Sorted) =
        some false := by
  refine ⟨by decide, ?_, by decide⟩
  have hnone : ((rootOf "SWAP.SYS".toList "DL.SYS".toList).sort rt11SortGroups).isNone := by decide
  exact Option.isNone_iff_eq_none.mp hnone

end QUniBone.Sharedfs
