import QUniBone.Sharedfs.XxdpLayout
import Mathlib.Data.List.Nodup

/-!
# XXDP: placement of files

What `calcLayout` does to the files, without its error paths.

* `blockRow_append`, `blockRow_eq_range'`: rows of block numbers.
* `place`: the files one behind the other.
* `layoutFiles_eq_ok_iff`, `calcLayout_eq_ok_iff`: when there is a layout, and which one.
-/

namespace QUniBone.XXDP

open Sharedfs

/-! ## Rows of blocks -/

theorem length_blockRow (start count : ℕ) : (blockRow start count).length = count := by
  rw [blockRow, List.length_map, List.length_range]

theorem mem_blockRow {start count n : ℕ} :
    n ∈ blockRow start count ↔ ∃ i < count, (start + i) % 2 ^ 16 = n := by
  simp [blockRow]

theorem blockRow_succ {start : ℕ} (hstart : start < 2 ^ 16) (count : ℕ) :
    blockRow start (count + 1) = start :: blockRow ((start + 1) % 2 ^ 16) count := by
  rw [blockRow, List.range_succ_eq_map, List.map_cons, List.map_map, blockRow, Nat.add_zero,
    Nat.mod_eq_of_lt hstart]
  congr 1
  refine List.map_congr_left fun i _ => ?_
  show (start + (i + 1)) % 2 ^ 16 = ((start + 1) % 2 ^ 16 + i) % 2 ^ 16
  omega

theorem blockRow_append (start m n : ℕ) :
    blockRow start m ++ blockRow ((start + m) % 2 ^ 16) n = blockRow start (m + n) := by
  rw [blockRow, blockRow, blockRow, List.range_add, List.map_append, List.map_map]
  congr 1
  refine List.map_congr_left fun i _ => ?_
  show ((start + m) % 2 ^ 16 + i) % 2 ^ 16 = (start + (m + i)) % 2 ^ 16
  omega

/-- A row that ends in time does not wrap around. -/
theorem blockRow_eq_range' {start count : ℕ} (h : start + count ≤ 2 ^ 16) :
    blockRow start count = List.range' start count := by
  rw [blockRow, List.range'_eq_map_range]
  refine List.map_congr_left fun i hi => ?_
  have hi := List.mem_range.mp hi
  omega

/-! ## Block lists -/

theorem addEmptyBlock_startBlockNr (bs : List LinkedBlock) (nr : ℕ) :
    (addEmptyBlock bs nr).map (·.startBlockNr) = bs.map (·.startBlockNr) ++ [nr] := by
  induction bs with
  | nil => rfl
  | cons b bs ih =>
    cases bs with
    | nil => rfl
    | cons b' bs =>
      rw [addEmptyBlock, List.map_cons, ih]
      rfl

theorem emptyBlocks_startBlockNr (nrs : List ℕ) :
    (emptyBlocks nrs).map (·.startBlockNr) = nrs := by
  have hfold : ∀ (nrs : List ℕ) (bs : List LinkedBlock),
      (nrs.foldl addEmptyBlock bs).map (·.startBlockNr) = bs.map (·.startBlockNr) ++ nrs := by
    intro nrs
    induction nrs with
    | nil => simp
    | cons nr nrs ih =>
      intro bs
      rw [List.foldl_cons, ih, addEmptyBlock_startBlockNr, List.append_assoc]
      rfl
  exact hfold nrs []

/-! ## Files -/

namespace File

/-- `block_count` that the layout gives a file -/
def dataBlocks (f : File) : ℕ := neededBlocks blockDatasize f.fileSize % 2 ^ 16

/-- The file from a block number on -/
def placed (blockNr : ℕ) (f : File) : File :=
  { f with
    startBlockNr := blockNr
    lastBlockNr := (blockRow blockNr f.dataBlocks).getLastD blockNr
    blockCount := f.dataBlocks
    blockNrList := blockRow blockNr f.dataBlocks }

/-- A file has at least one block, and not more than a list takes. -/
def Linkable (f : File) : Prop := 0 < f.dataBlocks ∧ f.dataBlocks ≤ 1024

instance decidableLinkable (f : File) : Decidable f.Linkable := inferInstanceAs (Decidable (_ ∧ _))

end File

theorem allocate_eq_ok_iff {blockcount n j blockNr : ℕ} (hnr : blockNr < 2 ^ 16) {nrs : List ℕ} :
    allocate blockcount n j blockNr = .ok nrs ↔
      (n = 0 ∨ j + n ≤ 1024) ∧ (∀ i < n, (blockNr + i) % 2 ^ 16 < blockcount) ∧
        nrs = blockRow blockNr n := by
  induction n generalizing j blockNr nrs with
  | zero => simp [allocate, blockRow, eq_comm]
  | succ n ih =>
    have hnext : (blockNr + 1) % 2 ^ 16 < 2 ^ 16 := Nat.mod_lt _ (Nat.two_pow_pos 16)
    have hshift : ∀ i, ((blockNr + 1) % 2 ^ 16 + i) % 2 ^ 16 = (blockNr + (i + 1)) % 2 ^ 16 := by
      intro i
      omega
    rw [allocate]
    split
    · next hj =>
      constructor
      · intro h
        cases h
      · rintro ⟨hle, -⟩
        omega
    split
    · next hfull =>
      constructor
      · intro h
        cases h
      · rintro ⟨-, hin, -⟩
        have h0 := hin 0 (by omega)
        rw [Nat.add_zero, Nat.mod_eq_of_lt hnr] at h0
        omega
    · next hj hfull =>
      rw [blockRow_succ hnr]
      constructor
      · intro h
        cases hrest : allocate blockcount n (j + 1) ((blockNr + 1) % 2 ^ 16) with
        | error e =>
          rw [hrest] at h
          cases h
        | ok rest =>
          rw [hrest] at h
          obtain rfl := Except.ok.inj h
          obtain ⟨hlen, hin, rfl⟩ := (ih hnext).mp hrest
          refine ⟨by omega, ?_, rfl⟩
          intro i hi
          cases i with
          | zero =>
            rw [Nat.add_zero, Nat.mod_eq_of_lt hnr]
            omega
          | succ i =>
            rw [← hshift]
            exact hin i (by omega)
      · rintro ⟨hlen, hin, rfl⟩
        have hrest := (ih (j := j + 1) hnext).mpr
          ⟨by omega, fun i hi => by rw [hshift]; exact hin (i + 1) (by omega), rfl⟩
        rw [hrest]
        rfl

theorem layoutFile_eq_ok_iff {blockcount blockNr : ℕ} (hnr : blockNr < 2 ^ 16) {f f' : File}
    {next : ℕ} :
    layoutFile blockcount blockNr f = .ok (f', next) ↔
      f.Linkable ∧ (∀ i < f.dataBlocks, (blockNr + i) % 2 ^ 16 < blockcount) ∧
        f' = f.placed blockNr ∧ next = (blockNr + f.dataBlocks) % 2 ^ 16 := by
  unfold layoutFile
  dsimp only
  rw [← File.dataBlocks]
  split
  · next hzero =>
    constructor
    · intro h
      cases h
    · rintro ⟨⟨hpos, -⟩, -⟩
      omega
  next hzero =>
  split
  · next e he =>
    constructor
    · intro h
      cases h
    · rintro ⟨⟨-, hle⟩, hin, -⟩
      have hok := (allocate_eq_ok_iff (j := 0) hnr).mpr ⟨Or.inr (by omega), hin, rfl⟩
      rw [hok] at he
      cases he
  · next nrs hok =>
    obtain ⟨hlen, hin, rfl⟩ := (allocate_eq_ok_iff hnr).mp hok
    have hlink : f.Linkable := ⟨by omega, by omega⟩
    constructor
    · intro h
      obtain ⟨rfl, rfl⟩ := Prod.mk.inj (Except.ok.inj h)
      exact ⟨hlink, hin, rfl, rfl⟩
    · rintro ⟨-, -, rfl, rfl⟩
      rfl

/-- The files one behind the other -/
def place : ℕ → List (Node File) → List (Node File)
  | _, [] => []
  | blockNr, n :: ns =>
    if n.file.internal then n :: place blockNr ns
    else { n with file := n.file.placed blockNr } ::
      place ((blockNr + n.file.dataBlocks) % 2 ^ 16) ns

/-- The files with an entry in the UFD -/
def userFilesOf (ns : List (Node File)) : List File := (ns.map (·.file)).filter (!·.internal)

/-- The blocks of these files -/
def dataBlocksOf (fs : List File) : ℕ := (fs.map (·.dataBlocks)).sum

theorem userFilesOf_cons (n : Node File) (ns : List (Node File)) :
    userFilesOf (n :: ns) =
      if n.file.internal then userFilesOf ns else n.file :: userFilesOf ns := by
  unfold userFilesOf
  rw [List.map_cons, List.filter_cons]
  cases n.file.internal <;> rfl

theorem layoutFiles_eq_ok_iff {blockcount blockNr : ℕ} (hnr : blockNr < 2 ^ 16)
    {ns ns' : List (Node File)} {next : ℕ} :
    layoutFiles blockcount blockNr ns = .ok (ns', next) ↔
      (∀ f ∈ userFilesOf ns, f.Linkable) ∧
        (∀ i < dataBlocksOf (userFilesOf ns), (blockNr + i) % 2 ^ 16 < blockcount) ∧
          ns' = place blockNr ns ∧ next = (blockNr + dataBlocksOf (userFilesOf ns)) % 2 ^ 16 := by
  induction ns generalizing blockNr ns' next with
  | nil =>
    have hmod : blockNr % 2 ^ 16 = blockNr := Nat.mod_eq_of_lt hnr
    simp only [layoutFiles, place, userFilesOf, dataBlocksOf, List.map_nil, List.filter_nil,
      List.sum_nil, Nat.add_zero, hmod, Except.ok.injEq, Prod.mk.injEq]
    constructor
    · rintro ⟨rfl, rfl⟩
      exact ⟨by simp, by simp, rfl, rfl⟩
    · rintro ⟨-, -, rfl, rfl⟩
      exact ⟨rfl, rfl⟩
  | cons n ns ih =>
    rw [layoutFiles, userFilesOf_cons, place]
    cases hint : n.file.internal with
    | true =>
      simp only [↓reduceIte]
      constructor
      · intro h
        cases hrest : layoutFiles blockcount blockNr ns with
        | error e =>
          rw [hrest] at h
          cases h
        | ok r =>
          rw [hrest] at h
          obtain ⟨rfl, rfl⟩ := Prod.mk.inj (Except.ok.inj h)
          obtain ⟨hlink, hin, hplace, hnext⟩ := (ih hnr).mp hrest
          exact ⟨hlink, hin, by rw [hplace], hnext⟩
      · rintro ⟨hlink, hin, rfl, rfl⟩
        rw [(ih hnr).mpr ⟨hlink, hin, rfl, rfl⟩]
    | false =>
      have hbehind : (blockNr + n.file.dataBlocks) % 2 ^ 16 < 2 ^ 16 :=
        Nat.mod_lt _ (Nat.two_pow_pos 16)
      have hsum : dataBlocksOf (n.file :: userFilesOf ns) =
          n.file.dataBlocks + dataBlocksOf (userFilesOf ns) := by
        rw [dataBlocksOf, List.map_cons, List.sum_cons, dataBlocksOf]
      simp only [Bool.false_eq_true, ↓reduceIte, hsum, List.forall_mem_cons]
      constructor
      · intro h
        cases hfile : layoutFile blockcount blockNr n.file with
        | error e =>
          rw [hfile] at h
          cases h
        | ok r =>
          obtain ⟨hl, hinf, hf, hr⟩ := (layoutFile_eq_ok_iff hnr).mp hfile
          cases hrest : layoutFiles blockcount r.2 ns with
          | error e =>
            rw [hfile] at h
            dsimp only at h
            rw [hrest] at h
            cases h
          | ok q =>
            rw [hfile] at h
            dsimp only at h
            rw [hrest] at h
            obtain ⟨rfl, rfl⟩ := Prod.mk.inj (Except.ok.inj h)
            rw [hr] at hrest
            obtain ⟨hlink, hin, hplace, hnext⟩ := (ih hbehind).mp hrest
            refine ⟨⟨hl, hlink⟩, ?_, by rw [hf, hplace], by rw [hnext]; omega⟩
            intro i hi
            by_cases hlt : i < n.file.dataBlocks
            · exact hinf i hlt
            · have := hin (i - n.file.dataBlocks) (by omega)
              rwa [show (blockNr + i) % 2 ^ 16 = ((blockNr + n.file.dataBlocks) % 2 ^ 16 +
                (i - n.file.dataBlocks)) % 2 ^ 16 by omega]
      · rintro ⟨⟨hl, hlink⟩, hin, rfl, rfl⟩
        rw [(layoutFile_eq_ok_iff hnr).mpr ⟨hl, fun i hi => hin i (by omega), rfl, rfl⟩]
        dsimp only
        rw [(ih hbehind).mpr ⟨hlink, ?_, rfl, rfl⟩]
        · simp only [Except.ok.injEq, Prod.mk.injEq, true_and]
          omega
        · intro i hi
          have := hin (n.file.dataBlocks + i) (by omega)
          rwa [show ((blockNr + n.file.dataBlocks) % 2 ^ 16 + i) % 2 ^ 16 =
            (blockNr + (n.file.dataBlocks + i)) % 2 ^ 16 by omega]

/-! ## What the placement keeps -/

theorem flatten_place (blockNr : ℕ) (ns : List (Node File)) :
    ((userFilesOf (place blockNr ns)).map (·.blockNrList)).flatten =
      blockRow blockNr (dataBlocksOf (userFilesOf ns)) := by
  induction ns generalizing blockNr with
  | nil => rfl
  | cons n ns ih =>
    rw [place, userFilesOf_cons n ns]
    cases hint : n.file.internal with
    | true =>
      simp only [↓reduceIte]
      rw [userFilesOf_cons, hint]
      exact ih blockNr
    | false =>
      simp only [Bool.false_eq_true, ↓reduceIte]
      rw [userFilesOf_cons, show (n.file.placed blockNr).internal = false from hint]
      simp only [Bool.false_eq_true, ↓reduceIte, List.map_cons, List.flatten_cons, ih]
      show blockRow blockNr n.file.dataBlocks ++ _ = _
      rw [blockRow_append, dataBlocksOf, dataBlocksOf, List.map_cons, List.sum_cons]

theorem length_userFilesOf_place (blockNr : ℕ) (ns : List (Node File)) :
    (userFilesOf (place blockNr ns)).length = (userFilesOf ns).length := by
  induction ns generalizing blockNr with
  | nil => rfl
  | cons n ns ih =>
    rw [place, userFilesOf_cons n ns]
    cases hint : n.file.internal with
    | true =>
      simp only [↓reduceIte]
      rw [userFilesOf_cons, hint]
      exact ih blockNr
    | false =>
      simp only [Bool.false_eq_true, ↓reduceIte]
      rw [userFilesOf_cons, show (n.file.placed blockNr).internal = false from hint]
      simp only [Bool.false_eq_true, ↓reduceIte, List.length_cons, ih]

/-- A file that has been placed keeps its data, and has as many blocks as it needs. -/
theorem mem_userFilesOf_place {blockNr : ℕ} {ns : List (Node File)} {f : File}
    (hf : f ∈ userFilesOf (place blockNr ns)) :
    ∃ nr, ∃ g ∈ userFilesOf ns, f = g.placed nr := by
  induction ns generalizing blockNr with
  | nil => simp [place, userFilesOf] at hf
  | cons n ns ih =>
    rw [place] at hf
    rw [userFilesOf_cons]
    cases hint : n.file.internal with
    | true =>
      rw [hint, if_pos rfl, userFilesOf_cons, hint, if_pos rfl] at hf
      exact ih hf
    | false =>
      rw [hint, if_neg Bool.false_ne_true, userFilesOf_cons,
        show (n.file.placed blockNr).internal = false from hint, if_neg Bool.false_ne_true] at hf
      simp only [Bool.false_eq_true, ↓reduceIte]
      rcases List.mem_cons.mp hf with rfl | hrest
      · exact ⟨blockNr, n.file, List.mem_cons_self, rfl⟩
      · obtain ⟨nr, g, hg, heq⟩ := ih hrest
        exact ⟨nr, g, List.mem_cons_of_mem _ hg, heq⟩

/-! ## The layout -/

namespace Fs

/-- The blocks of all files that have an entry in the UFD -/
def dataBlocks (s : Fs) : ℕ := dataBlocksOf s.userFiles

/-- The file system with its layout -/
def arranged (s : Fs) : Fs :=
  let t : Fs := { s with tree := { s.tree with files := place s.firstFileBlock s.tree.files } }
  { t with
    bitmapUsed := fun n =>
      n < s.preallocatedBlockcount ||
        n ∈ s.bitmapNrs ++ s.mfdNrs ++ s.ufdNrs ++ t.fileNrs.flatten
    bitmapBlockList := emptyBlocks s.bitmapNrs
    mfdBlockList := emptyBlocks s.mfdNrs
    ufdBlockList := emptyBlocks s.ufdNrs }

/-- There is a layout. -/
structure Fits (s : Fs) : Prop where
  files : 2 ≤ s.files.length
  linkable : ∀ f ∈ s.userFiles, f.Linkable
  /-- the blocks of the files, and the one behind them -/
  inside : ∀ i ≤ s.dataBlocks, (s.firstFileBlock + i) % 2 ^ 16 < s.blockcount

end Fs

theorem calcLayout_eq_ok_iff {s : Fs} (hvar : s.mfdVariety = 1 ∨ s.mfdVariety = 2)
    (hpre : s.preallocatedBlockcount < 2 ^ 16) {t : Fs} :
    calcLayout s = .ok t ↔ s.Fits ∧ t = s.arranged := by
  have hfirst : s.firstFileBlock < 2 ^ 16 :=
    max_lt hpre (Nat.mod_lt _ (Nat.two_pow_pos 16))
  have hfiles (ns' : List (Node File)) (next : ℕ) :
      layoutFiles s.blockcount s.firstFileBlock s.tree.files = .ok (ns', next) ↔ _ :=
    layoutFiles_eq_ok_iff hfirst
  unfold calcLayout
  rw [if_neg (by omega)]
  split
  · next hfew =>
    constructor
    · intro h
      cases h
    · rintro ⟨hfits, -⟩
      exact absurd hfits.files (by omega)
  next hfew =>
  split
  · next e he =>
    constructor
    · intro h
      cases h
    · rintro ⟨hfits, -⟩
      rw [(hfiles _ _).mpr ⟨hfits.linkable, fun i hi => hfits.inside i hi.le, rfl, rfl⟩] at he
      cases he
  · next ns next hok =>
    obtain ⟨hlink, hin, rfl, rfl⟩ := (hfiles _ _).mp hok
    split
    · next hfull =>
      constructor
      · intro h
        cases h
      · rintro ⟨hfits, -⟩
        exact absurd (hfits.inside _ le_rfl) (not_lt.mpr hfull)
    · next hroom =>
      have hfits : s.Fits := by
        refine ⟨by omega, hlink, fun i hi => ?_⟩
        rcases hi.lt_or_eq with hlt | rfl
        · exact hin i hlt
        · exact not_le.mp hroom
      constructor
      · intro h
        exact ⟨hfits, (Except.ok.inj h).symm⟩
      · rintro ⟨-, rfl⟩
        rfl

end QUniBone.XXDP
