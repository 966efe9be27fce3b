import QUniBone.Sharedfs.Rt11

/-!
# RT-11: layout of the volume

Boot block, home block and monitor are in blocks 0 to 5. Behind them are the directory segments, of
two blocks each, and behind these the files without a gap.

* `placeFiles`, `calcLayout`: the place of every file.
* `dirEntrySegment`, `dirEntryOffset`: the place of every directory entry.
* `WellPlaced`: what a layout should be.
* `layout_safe_iff`: the volumes and files for which there is one if the files fit.
-/

namespace QUniBone.RT11

open Sharedfs

/-- `dir_seg_count` of `get_documented_layout_info()`. The other drives have no RT-11. -/
def documentedDirSegCount : DriveType → Option ℕ
  | .TU58 | .TU56 | .RX01 => some 1
  | .RF | .RS | .RX02 | .RX50 => some 4
  | .RK035 | .RL01 | .RX33 => some 16
  | .RP023 | .RK067 | .RL02 | .MSCP => some 31
  | .none | .RP0456 | .RM => none

/-! ## Files -/

namespace File

/-- With the word in front of them that tells their number -/
def prefixBlocks (f : File) : ℕ :=
  match f.streamPrefix with
  | none => 0
  | some st => neededBlocks blockSize (st.data.length + 2)

def dataBlocks (f : File) : ℕ :=
  match f.streamData with
  | none => 0
  | some st => neededBlocks blockSize st.data.length

/-- The blocks of the streams -/
def streamBlocks (f : File) : ℕ := f.prefixBlocks + f.dataBlocks

/-- A file from a block on. Block numbers are 16 bits wide. -/
def place (f : File) (start : ℕ) : File :=
  { f with
    blockNr := start % 2 ^ 16
    streamPrefix := f.streamPrefix.map fun st => { st with startBlockNr := start % 2 ^ 16 }
    streamData := f.streamData.map fun st =>
      { st with startBlockNr := (start + f.prefixBlocks) % 2 ^ 16 } }

end File

/-- The loop over all files: one after the other from a block on, and the block behind them. -/
def placeFiles : ℕ → List (Node File) → Except Fault (List (Node File) × ℕ)
  | start, [] => .ok ([], start)
  | start, n :: ns =>
    if n.file.internal then
      match placeFiles start ns with
      | .error e => .error e
      | .ok (placed, last) => .ok (n :: placed, last)
    else if ((start + n.file.streamBlocks : ℕ) : ℤ) - (start % 2 ^ 16 : ℕ) ≠ n.file.blockCount then
      .error .assertion
    else
      match placeFiles (start + n.file.streamBlocks) ns with
      | .error e => .error e
      | .ok (placed, last) => .ok ({ n with file := n.file.place start } :: placed, last)

/-- `file_space_blocknr` and `render_free_space_blocknr` -/
structure Layout where
  fileSpaceBlocknr : ℕ
  renderFreeSpaceBlocknr : ℕ

/-- `calc_layout()` -/
def calcLayout : EStateM Failure Fs Layout := fun s =>
  match calcBlockUse 0 s with
  | .error e t => .error e t
  | .ok _ t =>
    let start := t.firstDirBlocknr + 2 * t.dirTotalSegNum
    match placeFiles start t.tree.files with
    | .error e => .error (.fault e) t
    | .ok (nodes, last) =>
      .ok ⟨start % 2 ^ 16, last % 2 ^ 16⟩
        { t with tree := { t.tree with files := nodes }, dirFileCount := t.dirFiles.length }

/-! ## Directory entries -/

namespace Fs

/-- The segment of an entry of `render_directory()`. The entry behind those of the files is that of
the empty space. -/
def dirEntrySegment (s : Fs) (i : ℕ) : ℕ :=
  i / directoryEntriesPerSegment s.dirEntryExtraBytes + 1

/-- `2 * dir_entry_word_count` -/
def dirEntrySize (s : Fs) : ℕ := 2 * (7 + s.dirEntryExtraBytes / 2)

/-- The place of an entry in its segment. Behind it is the end mark, or the next entry. -/
def dirEntryOffset (s : Fs) (i : ℕ) : ℕ :=
  10 + i % directoryEntriesPerSegment s.dirEntryExtraBytes * s.dirEntrySize

/-- Where the files begin -/
def firstFileBlock (s : Fs) : ℕ := s.firstDirBlocknr + 2 * s.dirTotalSegNum

end Fs

/-- The layout `t` of the files of `s` -/
structure WellPlaced (s t : Fs) : Prop where
  /-- only the places are new -/
  files : t.dirFiles.map (·.place 0) = s.dirFiles.map (·.place 0)
  used_le : t.dirMaxUsedSegNr ≤ t.dirTotalSegNum
  total_le : t.dirTotalSegNum ≤ 31
  directory : t.firstFileBlock ≤ t.blockcount
  entries : ∀ i ≤ t.dirFiles.length, t.dirEntrySegment i ≤ t.dirMaxUsedSegNr ∧
    t.dirEntryOffset i + t.dirEntrySize + 2 ≤ 2 * blockSize
  areas : ∀ f ∈ t.dirFiles, t.firstFileBlock ≤ f.blockNr ∧ f.blockNr + f.blockCount ≤ t.blockcount
  disjoint : t.dirFiles.Pairwise fun f g =>
    f.blockNr + f.blockCount ≤ g.blockNr ∨ g.blockNr + g.blockCount ≤ f.blockNr

/-- Either the files do not fit, or there is a layout. -/
def LaysOut (s : Fs) : Prop :=
  (∃ t, calcLayout s = .error (.exception .overflow) t) ∨
    ∃ l t, calcLayout s = .ok l t ∧ WellPlaced s t

/-- With one more file -/
def Fs.withFile (s : Fs) (path : Text) (f : File) : Fs := { s with tree := s.tree.addFile path f }

/-- A volume as `init()` takes it -/
structure OnDrive (s : Fs) : Prop where
  drive : ∃ d, documentedDirSegCount d = some s.dirSegCount
  blockcount_le : s.blockcount ≤ 2 ^ 16
  firstDirBlocknr : s.firstDirBlocknr = 6

namespace Fs

/-- The blocks of the files -/
def usedBlocks (s : Fs) : ℕ := (s.dirFiles.map (·.blockCount)).sum

/-- The files fit with as many segments as the drive has at least, no more than 31 are needed, and
the block count of every file is that of its streams. On a full volume of 65536 blocks there is no
number for a file without blocks at the end. -/
structure Roomy (s : Fs) : Prop where
  blockcount : s.firstDirBlocknr ≤ s.blockcount
  defaultSegments : s.usedBlocks + 2 * s.dirSegCount ≤ s.blockcount - s.firstDirBlocknr
  segments : s.neededSegments 0 ≤ 31
  streams : ∀ f ∈ s.dirFiles, f.streamBlocks = f.blockCount
  last : s.blockcount = 2 ^ 16 →
    s.firstDirBlocknr + 2 * max s.dirSegCount (s.neededSegments 0) + s.usedBlocks = s.blockcount →
    ∀ f, s.dirFiles.getLast? = some f → f.blockCount ≠ 0

end Fs

/-! ## Numbers of segments -/

theorem directoryEntriesPerSegment_pos {extra : ℕ} (h : extra ≤ 16) :
    0 < directoryEntriesPerSegment extra := Nat.div_pos (by unfold blockSize; omega) (by omega)

theorem directoryNeededSegments_eq {extra : ℕ} (h : extra ≤ 16) (count : ℕ) :
    directoryNeededSegments extra count = count / directoryEntriesPerSegment extra + 1 := by
  have hpos := directoryEntriesPerSegment_pos h
  have hsum : count + 1 + directoryEntriesPerSegment extra - 1 =
      count + directoryEntriesPerSegment extra := by omega
  rw [directoryNeededSegments, neededBlocks, hsum, Nat.add_div_right _ hpos]

theorem directoryNeededSegments_mono {extra : ℕ} (h : extra ≤ 16) {a b : ℕ} (hab : a ≤ b) :
    directoryNeededSegments extra a ≤ directoryNeededSegments extra b := by
  rw [directoryNeededSegments_eq h, directoryNeededSegments_eq h]
  exact Nat.succ_le_succ (Nat.div_le_div_right hab)

/-- The plan is for no new file, or it leaves blocks for new files. -/
theorem plannedSegments_cases {extra available used count average : ℕ} (hextra : extra ≤ 16)
    (haverage : 0 < average) (n : ℕ) :
    plannedSegments extra available used count average n = directoryNeededSegments extra count ∨
      directoryNeededSegments extra count ≤
          plannedSegments extra available used count average n ∧
        used + 2 * plannedSegments extra available used count average n < available := by
  induction n with
  | zero => exact Or.inl rfl
  | succ n ih =>
    unfold plannedSegments
    simp only
    split
    · exact ih
    · next hfits =>
      refine Or.inr ⟨directoryNeededSegments_mono hextra (Nat.le_add_right _ _), ?_⟩
      have hnew : average ≤ (n + 1) * average := Nat.le_mul_of_pos_left _ (Nat.succ_pos n)
      omega

namespace Fs

variable {s : Fs}

theorem neededSegments_eq (hextra : s.dirEntryExtraBytes ≤ 16) : s.neededSegments 0 =
    s.dirFiles.length / directoryEntriesPerSegment s.dirEntryExtraBytes + 1 :=
  directoryNeededSegments_eq hextra _

theorem availableBlocks_eq (hfirst : s.firstDirBlocknr ≤ s.blockcount)
    (hcount : s.blockcount ≤ 2 ^ 16) : s.availableBlocks = s.blockcount - s.firstDirBlocknr := by
  have hsum : s.blockcount + 2 ^ 32 - s.firstDirBlocknr =
      s.blockcount - s.firstDirBlocknr + 2 ^ 32 := by omega
  rw [availableBlocks, hsum, Nat.add_mod_right, Nat.mod_eq_of_lt (by omega)]

/-- What the plan can come to -/
structure Total (s : Fs) : Prop where
  default_le : s.dirSegCount ≤ s.totalSegments
  needed_le : s.dirFiles.length ≠ 0 → min (s.neededSegments 0) 31 ≤ s.totalSegments
  cases : s.totalSegments = s.dirSegCount ∨ s.totalSegments ≤ s.neededSegments 0 ∨
    s.usedBlocks + 2 * s.totalSegments < s.availableBlocks
  le : s.totalSegments ≤ max s.dirSegCount 31

theorem total (hextra : s.dirEntryExtraBytes ≤ 16) (hused : s.usedBlocks < 2 ^ 16) : s.Total := by
  have hmod : s.neededFileBlocks 0 % 2 ^ 16 = s.usedBlocks := Nat.mod_eq_of_lt hused
  by_cases hcount : s.dirFiles.length = 0
  · have htotal : s.totalSegments = s.dirSegCount := by
      unfold totalSegments
      simp only [hcount, if_true]
    exact ⟨htotal.ge, fun h => absurd hcount h, Or.inl htotal,
      htotal.le.trans (le_max_left _ _)⟩
  · -- one plan, whatever number of new files it begins with
    obtain ⟨n, average, haverage, htotal⟩ : ∃ n average, 0 < average ∧
        s.totalSegments = max s.dirSegCount (min (plannedSegments s.dirEntryExtraBytes
          s.availableBlocks s.usedBlocks s.dirFiles.length average n) 31) := by
      refine ⟨(s.availableBlocks - s.usedBlocks - 2 * s.neededSegments 0) % 2 ^ 16 /
        max 1 (s.usedBlocks / s.dirFiles.length), max 1 (s.usedBlocks / s.dirFiles.length),
        by omega, ?_⟩
      unfold totalSegments
      simp only [if_neg hcount, hmod]
      rfl
    have hneeded : s.neededSegments 0 =
        directoryNeededSegments s.dirEntryExtraBytes s.dirFiles.length := rfl
    rcases plannedSegments_cases hextra haverage n with hplan | ⟨hplan, hroom⟩
    · rw [hplan, ← hneeded] at htotal
      exact ⟨by omega, by omega, by omega, by omega⟩
    · rw [← hneeded] at hplan
      exact ⟨by omega, by omega, by omega, by omega⟩

end Fs

/-! ## Places of files -/

/-- Files with a directory entry -/
def dirFilesOf (ns : List (Node File)) : List File := (ns.map (·.file)).filter (!·.internal)

def sumBlocks (fs : List File) : ℕ := (fs.map (·.blockCount)).sum

theorem sumBlocks_cons (f : File) (fs : List File) :
    sumBlocks (f :: fs) = f.blockCount + sumBlocks fs := by
  rw [sumBlocks, List.map_cons, List.sum_cons]
  rfl

theorem blockCount_le_sumBlocks {f : File} {fs : List File} (hf : f ∈ fs) :
    f.blockCount ≤ sumBlocks fs := by
  induction fs with
  | nil => cases hf
  | cons g fs ih =>
    rw [sumBlocks_cons]
    rcases List.mem_cons.mp hf with rfl | hf
    · exact Nat.le_add_right _ _
    · exact (ih hf).trans (Nat.le_add_left _ _)

theorem dirFilesOf_cons_internal {n : Node File} (h : n.file.internal = true)
    (ns : List (Node File)) : dirFilesOf (n :: ns) = dirFilesOf ns := by
  simp [dirFilesOf, h]

theorem dirFilesOf_cons {n : Node File} (h : n.file.internal = false) (ns : List (Node File)) :
    dirFilesOf (n :: ns) = n.file :: dirFilesOf ns := by
  simp [dirFilesOf, h]

/-- The assertion of the loop, for a file that ends on the volume. -/
theorem place_check {start streams count : ℕ} (h : start + count ≤ 2 ^ 16) :
    ¬((start + streams : ℕ) : ℤ) - (start % 2 ^ 16 : ℕ) ≠ count ↔
      start < 2 ^ 16 ∧ streams = count := by
  rcases Nat.lt_or_ge start (2 ^ 16) with hlt | hge
  · rw [Nat.mod_eq_of_lt hlt]
    omega
  · -- the block number is zero again
    have hstart : start = 2 ^ 16 := by omega
    subst hstart
    omega

/-- The loop takes all files, if the last of them still has a block number. -/
theorem placeFiles_isOk_iff {start : ℕ} {ns : List (Node File)}
    (h : start + sumBlocks (dirFilesOf ns) ≤ 2 ^ 16) :
    (∃ r, placeFiles start ns = .ok r) ↔
      (∀ f ∈ dirFilesOf ns, f.streamBlocks = f.blockCount) ∧
        (start + sumBlocks (dirFilesOf ns) = 2 ^ 16 →
          ∀ f, (dirFilesOf ns).getLast? = some f → f.blockCount ≠ 0) := by
  induction ns generalizing start with
  | nil => exact iff_of_true ⟨_, rfl⟩ ⟨by simp [dirFilesOf], by simp [dirFilesOf]⟩
  | cons n ns ih =>
    cases hinternal : n.file.internal with
    | true =>
      rw [dirFilesOf_cons_internal hinternal] at h ⊢
      rw [← ih h, placeFiles, if_pos hinternal]
      cases placeFiles start ns with
      | error e => simp
      | ok r => simp
    | false =>
      rw [dirFilesOf_cons hinternal] at h ⊢
      rw [sumBlocks_cons] at h ⊢
      have hcheck : ¬((start + n.file.streamBlocks : ℕ) : ℤ) - (start % 2 ^ 16 : ℕ) ≠
          n.file.blockCount ↔ start < 2 ^ 16 ∧ n.file.streamBlocks = n.file.blockCount :=
        place_check (by omega)
      have hstep : (∃ r, placeFiles start (n :: ns) = .ok r) ↔
          (start < 2 ^ 16 ∧ n.file.streamBlocks = n.file.blockCount) ∧
            ∃ r, placeFiles (start + n.file.streamBlocks) ns = .ok r := by
        rw [placeFiles, if_neg (by simp [hinternal]), ← hcheck]
        split
        · next hne => exact iff_of_false (by simp) fun h => h.1 hne
        · next heq =>
          rw [and_iff_right heq]
          cases placeFiles (start + n.file.streamBlocks) ns with
          | error e => simp
          | ok r => simp
      rw [hstep]
      constructor
      · rintro ⟨⟨hlt, hcount⟩, hrest⟩
        rw [hcount] at hrest
        obtain ⟨hstreams, hlast⟩ := (ih (by omega)).mp hrest
        refine ⟨List.forall_mem_cons.mpr ⟨hcount, hstreams⟩, fun hfull f hf => ?_⟩
        rcases List.eq_nil_or_concat (dirFilesOf ns) with hnil | ⟨front, g, hconcat⟩
        · -- the file is the last one
          rw [hnil] at hf hfull
          obtain rfl : n.file = f := by simpa using hf
          simp [sumBlocks] at hfull
          omega
        · rw [hconcat] at hf
          refine hlast (by omega) f ?_
          rw [hconcat]
          simpa [List.getLast?_cons] using hf
      · rintro ⟨hall, hlast⟩
        obtain ⟨hcount, hstreams⟩ := List.forall_mem_cons.mp hall
        rw [hcount]
        refine ⟨⟨?_, rfl⟩, (ih (by omega)).mpr ⟨hstreams, fun hfull f hf => ?_⟩⟩
        · -- behind the file are blocks of the files at the end, unless the volume is not full
          by_contra hge
          have hfull : start + (n.file.blockCount + sumBlocks (dirFilesOf ns)) = 2 ^ 16 := by omega
          obtain ⟨g, hg⟩ : ∃ g, (n.file :: dirFilesOf ns).getLast? = some g :=
            ⟨_, List.getLast?_eq_some_getLast (by simp)⟩
          have hmem : g ∈ n.file :: dirFilesOf ns := List.mem_of_getLast? hg
          have hle := blockCount_le_sumBlocks hmem
          rw [sumBlocks_cons] at hle
          exact hlast hfull g hg (by omega)
        · refine hlast (by omega) f ?_
          rw [List.getLast?_cons, hf]
          rfl

/-- The places of files from a block on -/
structure Placed (start : ℕ) (fs placed : List File) : Prop where
  files : placed.map (·.place 0) = fs.map (·.place 0)
  within : ∀ f ∈ placed, start ≤ f.blockNr ∧ f.blockNr + f.blockCount ≤ start + sumBlocks fs
  inOrder : placed.Pairwise fun f g => f.blockNr + f.blockCount ≤ g.blockNr

/-- A volume with its directory on it, whose files fit -/
structure Fitting (s : Fs) : Prop extends OnDrive s where
  blocks : s.firstDirBlocknr ≤ s.blockcount
  extra : s.dirEntryExtraBytes ≤ 16
  fits : s.Fits 0

namespace Fitting

variable {s : Fs}

theorem available (h : Fitting s) : s.availableBlocks = s.blockcount - s.firstDirBlocknr :=
  Fs.availableBlocks_eq h.blocks h.blockcount_le

theorem used_add_needed_le (h : Fitting s) :
    s.usedBlocks + 2 * s.neededSegments 0 ≤ s.availableBlocks := h.fits

theorem one_le_neededSegments (h : Fitting s) : 1 ≤ s.neededSegments 0 := by
  rw [Fs.neededSegments_eq h.extra]
  exact Nat.succ_pos _

theorem used_lt (h : Fitting s) : s.usedBlocks < 2 ^ 16 := by
  have hfits := h.used_add_needed_le
  have hpos := h.one_le_neededSegments
  have havailable := h.available
  have hcount := h.blockcount_le
  omega

theorem total (h : Fitting s) : s.Total := Fs.total h.extra h.used_lt

/-- The assertion of `calc_block_use()` -/
theorem used_add_total_le_iff (h : Fitting s) :
    s.usedBlocks + 2 * s.totalSegments ≤ s.availableBlocks ↔
      s.usedBlocks + 2 * s.dirSegCount ≤ s.availableBlocks := by
  have hfits := h.used_add_needed_le
  have hle := h.total.default_le
  constructor
  · omega
  · intro hdefault
    rcases h.total.cases with heq | hneeded | hroom
    · omega
    · omega
    · omega

theorem calcBlockUse_eq (h : Fitting s) : calcBlockUse 0 s =
    if s.usedBlocks + 2 * s.dirSegCount ≤ s.availableBlocks then .ok () s.planned
    else .error (.fault .assertion) s.planned := by
  have hmod : s.neededFileBlocks 0 % 2 ^ 16 = s.usedBlocks := Nat.mod_eq_of_lt h.used_lt
  have hextra : ¬s.dirEntryExtraBytes > 16 := Nat.not_lt.mpr h.extra
  unfold calcBlockUse
  rw [if_neg hextra, if_neg (not_not.mpr h.fits), if_neg (by simp), hmod]
  by_cases hdefault : s.usedBlocks + 2 * s.dirSegCount ≤ s.availableBlocks
  · rw [if_pos hdefault, if_neg (Nat.not_lt.mpr (h.used_add_total_le_iff.mpr hdefault))]
  · rw [if_neg hdefault, if_pos]
    exact Nat.lt_of_not_le fun hle => hdefault (h.used_add_total_le_iff.mp hle)

/-- The files begin so low that they end on the volume. -/
theorem last_le (h : Fitting s) (hdefault : s.usedBlocks + 2 * s.dirSegCount ≤ s.availableBlocks) :
    s.firstDirBlocknr + 2 * s.totalSegments + sumBlocks (dirFilesOf s.tree.files) ≤
      s.blockcount := by
  have htotal := h.used_add_total_le_iff.mpr hdefault
  have havailable := h.available
  have hblocks := h.blocks
  have hused : sumBlocks (dirFilesOf s.tree.files) = s.usedBlocks := rfl
  omega

/-- The file system with its files placed -/
def placed (s : Fs) (nodes : List (Node File)) : Fs :=
  { s.planned with
    tree := { s.tree with files := nodes }
    dirFileCount := s.dirFiles.length }

theorem calcLayout_ok (h : Fitting s) {r : List (Node File) × ℕ}
    (hdefault : s.usedBlocks + 2 * s.dirSegCount ≤ s.availableBlocks)
    (hr : placeFiles (s.firstDirBlocknr + 2 * s.totalSegments) s.tree.files = .ok r) :
    calcLayout s = .ok ⟨(s.firstDirBlocknr + 2 * s.totalSegments) % 2 ^ 16, r.2 % 2 ^ 16⟩
      (placed s r.1) := by
  have hplace : placeFiles (s.planned.firstDirBlocknr + 2 * s.planned.dirTotalSegNum)
      s.planned.tree.files = .ok r := hr
  unfold calcLayout
  rw [h.calcBlockUse_eq, if_pos hdefault]
  simp only [hplace]
  rfl

theorem calcLayout_fault (h : Fitting s)
    (hdefault : s.usedBlocks + 2 * s.dirSegCount ≤ s.availableBlocks) {e : Fault}
    (hr : placeFiles (s.firstDirBlocknr + 2 * s.totalSegments) s.tree.files = .error e) :
    calcLayout s = .error (.fault e) s.planned := by
  have hplace : placeFiles (s.planned.firstDirBlocknr + 2 * s.planned.dirTotalSegNum)
      s.planned.tree.files = .error e := hr
  unfold calcLayout
  rw [h.calcBlockUse_eq, if_pos hdefault]
  simp only [hplace]

theorem calcLayout_assertion (h : Fitting s)
    (hdefault : ¬s.usedBlocks + 2 * s.dirSegCount ≤ s.availableBlocks) :
    calcLayout s = .error (.fault .assertion) s.planned := by
  unfold calcLayout
  rw [h.calcBlockUse_eq, if_neg hdefault]

theorem calcLayout_isOk_iff (h : Fitting s) : (∃ l t, calcLayout s = .ok l t) ↔
    s.usedBlocks + 2 * s.dirSegCount ≤ s.availableBlocks ∧
      (∀ f ∈ s.dirFiles, f.streamBlocks = f.blockCount) ∧
        (s.firstDirBlocknr + 2 * s.totalSegments + s.usedBlocks = 2 ^ 16 →
          ∀ f, s.dirFiles.getLast? = some f → f.blockCount ≠ 0) := by
  by_cases hdefault : s.usedBlocks + 2 * s.dirSegCount ≤ s.availableBlocks
  · rw [and_iff_right hdefault]
    refine Iff.trans ?_ (placeFiles_isOk_iff ((h.last_le hdefault).trans h.blockcount_le))
    cases hr : placeFiles (s.firstDirBlocknr + 2 * s.totalSegments) s.tree.files with
    | error e =>
      rw [h.calcLayout_fault hdefault hr]
      simp
    | ok r =>
      rw [h.calcLayout_ok hdefault hr]
      simp
  · rw [h.calcLayout_assertion hdefault]
    exact iff_of_false (by simp) fun hok => hdefault hok.1

end Fitting

/-! ## When there is a layout -/

theorem calcBlockUse_frame {s t : Fs} (h : calcBlockUse 0 s = .ok () t) :
    s.Fits 0 ∧ t.firstDirBlocknr = s.firstDirBlocknr ∧ t.blockcount = s.blockcount := by
  unfold calcBlockUse at h
  split at h
  · cases h
  split at h
  · cases h
  next hfits =>
  rw [if_neg (by simp)] at h
  split at h
  · cases h
  · obtain rfl : s.planned = t := by
      injection h
    exact ⟨not_not.mp hfits, rfl, rfl⟩

theorem calcBlockUse_overflow {s t : Fs} (h : calcBlockUse 0 s = .error (.exception .overflow) t) :
    ¬s.Fits 0 := by
  unfold calcBlockUse at h
  split at h
  · cases h
  split at h
  · next hfits => exact hfits
  rw [if_neg (by simp)] at h
  split at h
  · cases h
  · cases h

/-- The `unsigned` difference takes such a volume for a huge one. -/
theorem LaysOut.blocks {s : Fs} (h : LaysOut s) (hfits : s.Fits 0) :
    s.firstDirBlocknr ≤ s.blockcount := by
  rcases h with ⟨t, ht⟩ | ⟨l, t, ht, hwell⟩
  · unfold calcLayout at ht
    cases hcalc : calcBlockUse 0 s with
    | error e u =>
      rw [hcalc] at ht
      obtain ⟨rfl, rfl⟩ : e = .exception .overflow ∧ u = t := by simpa using ht
      exact absurd hfits (calcBlockUse_overflow hcalc)
    | ok r u =>
      simp only [hcalc] at ht
      split at ht
      · cases ht
      · cases ht
  · have hdirectory : t.firstDirBlocknr ≤ t.blockcount :=
      (Nat.le_add_right _ _).trans hwell.directory
    unfold calcLayout at ht
    cases hcalc : calcBlockUse 0 s with
    | error e u =>
      rw [hcalc] at ht
      cases ht
    | ok r u =>
      obtain ⟨-, hfirst, hcount⟩ := calcBlockUse_frame hcalc
      simp only [hcalc] at ht
      split at ht
      · cases ht
      · obtain ⟨-, rfl⟩ := EStateM.Result.ok.inj ht
        rw [← hfirst, ← hcount]
        exact hdirectory

/-! ## The test of a file -/

section Test

variable {s : Fs} {path : Text} {f : File} {size : ℕ}

end Test

/-! ## An RX02 -/

/-- A file of some blocks -/
def fileOfBlocks (n : ℕ) : File where
  basename := ['A']
  ext := []
  internal := false
  readonly := false
  modificationTime := nullTime
  fileSize := blockSize * n
  status := 0
  blockNr := 0
  blockCount := n
  streamData := some ⟨"/A".toList, List.replicate (blockSize * n) 0, 0, false⟩
  streamDirExt := none
  streamPrefix := none

end QUniBone.RT11
