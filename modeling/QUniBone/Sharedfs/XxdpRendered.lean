import QUniBone.Sharedfs.XxdpReadBack
import QUniBone.Sharedfs.XxdpArranged
import QUniBone.Sharedfs.XxdpOwners
import QUniBone.Sharedfs.XxdpReturns

/-!
# XXDP: rendered images

What `render` writes for a file system that host files have been imported into.

* `ReadsBack`, `render_reads`: the tables and the data are found in the image.
* `render_returns_iff`: when there is an image.
-/

namespace QUniBone.XXDP

open Sharedfs LinkedBlock

variable {p q : Partition} {b : LinkedBlock} {bs bs' out : List LinkedBlock} {nr no n : ℕ}
  {nrs ns : List ℕ} {f : File} {fs : List File} {bytes : List (BitVec 8)} {s t : Fs}
variable {d : DriveType} {blocks : ℕ} {s₀ : Fs}

/-! ## What is found in an image -/

theorem Holds.wordOf (h : Holds q b) {i : ℕ} (hi : i < 256) :
    wordOf q b.startBlockNr i = b.wordAt i := h.wordAt hi 0

theorem renderArranged_eq_ok (hok : renderArranged p s = .ok q) :
    ∃ bitmap mfd ufd, renderBitmap s = .ok bitmap ∧ renderMfd s = .ok mfd ∧
      renderUfd s = .ok ufd ∧
        renderFileData (writeToImage ufd (writeToImage mfd (writeToImage bitmap p)))
          s.userFiles = .ok q := by
  unfold renderArranged at hok
  split at hok
  · cases hok
  next bitmap hbitmap =>
  split at hok
  · cases hok
  next mfd hmfd =>
  split at hok
  · cases hok
  next ufd hufd =>
  exact ⟨bitmap, mfd, ufd, hbitmap, hmfd, hufd, hok⟩

/-- A new volume with the layout of its drive, or one that was computed -/
theorem eq_init_of_new (hnew : Fs.new d blocks = .ok s) : ∃ l, documentedLayoutInfo d = some l ∧
    s = Fs.init (if l.blocksNum < blocks then recalcLayoutInfo l blocks else l) blocks := by
  unfold Fs.new at hnew
  split at hnew
  · cases hnew
  next l hl =>
  split at hnew
  · cases hnew
  · exact ⟨l, hl, (Except.ok.inj hnew).symm⟩

theorem preallocBlocksNum_lt (hnew : Fs.new d blocks = .ok s) :
    s.layoutInfo.preallocBlocksNum < 256 := by
  obtain ⟨l, hl, rfl⟩ := eq_init_of_new hnew
  obtain ⟨-, -, -, -, hpre, -⟩ := documentedLayoutInfo_bounds hl
  show (if l.blocksNum < blocks then recalcLayoutInfo l blocks else l).preallocBlocksNum < 256
  split
  · exact hpre
  · exact hpre

theorem blockCount_renderInternal {file : Option (Node File)} {start count : ℕ} {legal : ℕ → Bool}
    {illegal : ℕ → Error} (hok : renderInternal p file start count legal illegal = .ok q) :
    q.blockCount = p.blockCount := by
  unfold renderInternal at hok
  split at hok
  · obtain rfl := Except.ok.inj hok
    rfl
  · split at hok
    · obtain rfl := Except.ok.inj hok
      rfl
    · cases hok

theorem blockCount_renderInternals (hok : renderInternals p s = .ok q) :
    q.blockCount = p.blockCount := by
  unfold renderInternals at hok
  split at hok
  · cases hok
  · next p' hboot => exact (blockCount_renderInternal hok).trans (blockCount_renderInternal hboot)

/-- What `render()` returns -/
theorem render_eq_ok (hok : render p s = .ok (t, q)) :
    calcLayout s = .ok t ∧ t.blockcount ≤ p.blockCount ∧
      ∃ p', p'.blockCount = p.blockCount ∧ renderArranged p' t = .ok q := by
  unfold render at hok
  split at hok
  · cases hok
  next t' hlayout =>
  split at hok
  · cases hok
  next hroom =>
  split at hok
  · cases hok
  next p' hinternals =>
  split at hok
  · cases hok
  next q' hq =>
  obtain ⟨rfl, rfl⟩ := Prod.mk.inj (Except.ok.inj hok)
  exact ⟨hlayout, not_lt.mp hroom, p', blockCount_renderInternals hinternals, hq⟩

/-- A directory that has been rendered has room for all files. -/
theorem room_of_renderArranged (hok : renderArranged p s.arranged = .ok q) : s.userFiles.length ≤
      ufdEntriesPerBlock * (s.layoutInfo.ufdBlocksNum + s.ufdExtension) := by
  obtain ⟨-, -, ufd, -, -, hrender, -⟩ := renderArranged_eq_ok hok
  have hlen : s.arranged.userFiles.length = s.userFiles.length :=
    length_userFilesOf_place s.firstFileBlock s.tree.files
  rw [← length_ufdBlockList_arranged, ← hlen]
  rcases renderUfdEntries_room hrender with hnil | hle
  · rw [hnil]
    exact Nat.zero_le _
  · rwa [Nat.zero_add] at hle

/-! ## Imported files -/

/-- What holds of a file that has been imported, with the most blocks that a monitor may have -/
structure Imported (monitorMax : ℕ) (n : Node File) : Prop where
  year : n.file.modificationTime.year ≤ 99
  size : n.file.fileSize = n.file.data.length
  contiguous : n.file.isContiguousFile = n.file.internal
  bootblock : n.path = pathOf bootblockName → n.file.data.length = blockSize
  monitor : n.path = pathOf monitorName → n.file.data.length ≤ monitorMax * blockSize

theorem trim_trim (s : Text) : trim (trim s) = trim s := by
  have hleft : ltrim (trim s) = trim s := by
    have hprefix : trim s <+: ltrim s := List.rdropWhile_prefix isSpace _
    cases ht : trim s with
    | nil => rfl
    | cons c cs =>
      rw [ht] at hprefix
      obtain ⟨rest, hrest⟩ := hprefix
      have hc : isSpace c = false := by
        have hhead := List.head?_dropWhile_not isSpace s
        rw [show s.dropWhile isSpace = c :: (cs ++ rest) from hrest.symm] at hhead
        exact hhead
      exact List.dropWhile_cons_of_neg (by rw [hc]; exact Bool.false_ne_true)
  rw [trim, hleft, rtrim_trim]

/-- The path of a host file stands for its name. -/
theorem decName_of_decPath {hostFname base ext : Text} (hdot : '.' ∉ ext)
    (h : decPath hostFname = base ++ '.' :: ext) : decName hostFname = (base, ext) := by
  obtain ⟨mapped, hmapped⟩ : ∃ mapped, hostFname.map (fromHost '%') = mapped := ⟨_, rfl⟩
  have hname : decName hostFname = cutName mapped := by
    rw [decName, filenameFromHost_eq, hmapped]
  have hrad50 : ∀ c ∈ mapped, IsRad50 c := by
    intro c hc
    rw [← hmapped] at hc
    obtain ⟨d, -, rfl⟩ := List.mem_map.mp hc
    exact isRad50_fromHost ⟨0o35, by decide, rfl⟩ d
  have hdec := isDecName_cutName hrad50
  have hnodot : '.' ∉ (cutName mapped).2 := by
    intro hmem
    have hmem : '.' ∈ (splitExt mapped).2 := List.mem_of_mem_take (mem_of_mem_trim hmem)
    rcases splitExt_cases mapped with hs | ⟨b, e, hs, -, he, -⟩
    · rw [hs] at hmem
      cases hmem
    · rw [hs] at hmem
      exact he hmem
  have hpath : decPath hostFname = (cutName mapped).1 ++ '.' :: (cutName mapped).2 := by
    have hbase : trim (cutName mapped).1 = (cutName mapped).1 := trim_trim _
    have hext : trim (cutName mapped).2 = (cutName mapped).2 := trim_trim _
    rw [decPath, hname, makeFilename, hbase, hext]
    refine map_toUpper fun c hc => Or.inr ?_
    rcases List.mem_append.mp hc with hc | hc
    · exact hdec.base_rad50 c hc
    · rcases List.mem_cons.mp hc with rfl | hc
      · exact ⟨0o34, by decide, rfl⟩
      · exact hdec.ext_rad50 c hc
  have hsplit := splitLast_append hnodot (cutName mapped).1
  rw [← hpath, h, splitLast_append hdot] at hsplit
  rw [hname]
  exact (Option.some.inj hsplit).symm

theorem pathOf_internal : pathOf bootblockName = bootblockName.1 ++ '.' :: bootblockName.2 ∧
    pathOf monitorName = monitorName.1 ++ '.' :: monitorName.2 := by decide

/-- A host file is imported as a file of its own, with a legal size. -/
theorem importHostFile_imported {h : HostFile} {u : Fs} (hok : importHostFile h s = .ok () u)
    (hs : ∀ n ∈ s.tree.files, Imported s.monitorMaxBlockCount n) :
    u.monitorMaxBlockCount = s.monitorMaxBlockCount ∧
      ∀ n ∈ u.tree.files, Imported s.monitorMaxBlockCount n := by
  unfold importHostFile at hok
  dsimp only at hok
  split at hok
  · cases hok
    exact ⟨rfl, hs⟩
  split at hok
  · cases hok
    exact ⟨rfl, hs⟩
  split at hok
  · cases hok
    exact ⟨rfl, hs⟩
  split at hok
  · cases hok
  next hlegal =>
  split at hok
  · cases hok
    exact ⟨rfl, hs⟩
  split at hok
  · cases hok
  · cases hok
  cases hok
  refine ⟨rfl, fun n hn => ?_⟩
  rcases List.mem_append.mp hn with hold | hnew
  · exact hs n hold
  obtain rfl := List.mem_singleton.mp hnew
  unfold internalSizeError at hlegal
  refine ⟨?_, rfl, rfl, fun hpath => ?_, fun hpath => ?_⟩
  · show (if _ then _ else _) ≤ (99 : ℤ)
    split
    · decide
    split
    · exact le_rfl
    · exact not_lt.mp ‹_›
  · have hname : decName h.filename = bootblockName :=
      decName_of_decPath (by decide) (hpath.trans pathOf_internal.1)
    by_contra hne
    rw [if_pos ⟨hname, hne⟩] at hlegal
    cases hlegal
  · have hname : decName h.filename = monitorName :=
      decName_of_decPath (by decide) (hpath.trans pathOf_internal.2)
    have hboot : ¬(decName h.filename = bootblockName ∧ h.fileSize ≠ blockSize) := by
      rw [hname]
      rintro ⟨heq, -⟩
      exact absurd heq (by decide)
    by_contra hlong
    rw [if_neg hboot, if_pos ⟨hname, not_le.mp hlong⟩] at hlegal
    cases hlegal

theorem deleteHostFile_imported (path : Text)
    (hs : ∀ n ∈ s.tree.files, Imported s.monitorMaxBlockCount n) :
    (deleteHostFile path s).monitorMaxBlockCount = s.monitorMaxBlockCount ∧
      ∀ n ∈ (deleteHostFile path s).tree.files, Imported s.monitorMaxBlockCount n := by
  unfold deleteHostFile
  split
  · exact ⟨rfl, hs⟩
  split
  · exact ⟨rfl, hs⟩
  split
  · exact ⟨rfl, hs⟩
  · exact ⟨rfl, fun n hn => hs n (List.mem_of_mem_filter hn)⟩

/-- All files have been imported, and the map of the paths is right. -/
theorem imported_of_reached (hnew : Fs.new d blocks = .ok s₀) (hs : Reached consumeEvent s₀ s) :
    s.tree.Indexed ∧ ∀ n ∈ s.tree.files, Imported s.monitorMaxBlockCount n := by
  have hempty : s₀.tree = .empty := by
    obtain ⟨l, -, rfl⟩ := eq_init_of_new hnew
    rfl
  refine hs.invariant (I := fun s => s.tree.Indexed ∧
    ∀ n ∈ s.tree.files, Imported s.monitorMaxBlockCount n) (fun s e t hI hstep => ?_) ⟨?_, ?_⟩
  · obtain ⟨hindexed, hfiles⟩ := hI
    refine ⟨?_, ?_⟩
    · have hkept := consumeEvent_indexed s e hindexed
      rwa [hstep] at hkept
    cases e with
    | create file =>
      obtain ⟨hmax, hall⟩ := importHostFile_imported hstep hfiles
      rwa [hmax]
    | modify file =>
      obtain ⟨hmax, hall⟩ := deleteHostFile_imported file.path hfiles
      rw [← hmax] at hall
      obtain ⟨hmax', hall'⟩ := importHostFile_imported hstep hall
      rwa [hmax']
    | delete path =>
      cases hstep
      obtain ⟨hmax, hall⟩ := deleteHostFile_imported path hfiles
      rwa [hmax]
  · rw [hempty]
    exact FileTree.empty_indexed
  · rw [hempty]
    intro n hn
    cases hn

/-! ## When there is an image -/

theorem renderBitmap_isOk (hlist : s.bitmapBlockList = b :: bs)
    (hroom : s.blockcount ≤ blocksPerMap * (b :: bs).length) : ∃ out, renderBitmap s = .ok out := by
  have hfold : ∀ n ≤ s.blockcount, ∃ out,
      (List.range n).foldlM (renderBitmapFlag s b.startBlockNr) (b :: bs) = .ok out ∧
        out.length = (b :: bs).length := by
    intro n
    induction n with
    | zero => exact fun _ => ⟨_, rfl, rfl⟩
    | succ n ih =>
      intro hn
      obtain ⟨mid, hmid, hlen⟩ := ih (by omega)
      have hlt : n / blocksPerMap < mid.length := by
        rw [hlen]
        exact (Nat.div_lt_iff_lt_mul (by decide)).mpr (by rw [Nat.mul_comm]; omega)
      have hstep : renderBitmapFlag s b.startBlockNr mid n =
          .ok (mid.set (n / blocksPerMap)
            (flagBlock s b.startBlockNr n mid[n / blocksPerMap])) := by
        rw [renderBitmapFlag, List.getElem?_eq_getElem hlt]
      refine ⟨mid.set (n / blocksPerMap) (flagBlock s b.startBlockNr n mid[n / blocksPerMap]), ?_,
        List.length_set.trans hlen⟩
      rw [foldlM_range_succ, hmid]
      exact hstep
  obtain ⟨out, hout, -⟩ := hfold s.blockcount le_rfl
  refine ⟨out, ?_⟩
  rw [renderBitmap, hlist]
  exact hout

theorem dos11dateEncode_isOk {t : Tm} (h : t.year ≤ 99) : ∃ w, dos11dateEncode t = .ok w :=
  ⟨_, if_neg (not_lt.mpr h)⟩

theorem renderUfdEntries_isOk (hdates : ∀ f ∈ fs, f.modificationTime.year ≤ 99)
    (hroom : no + fs.length ≤ ufdEntriesPerBlock * bs.length) :
    ∃ out, renderUfdEntries bs no fs = .ok out := by
  induction fs generalizing bs no with
  | nil => exact ⟨bs, rfl⟩
  | cons f fs ih =>
    rw [List.forall_mem_cons] at hdates
    rw [List.length_cons] at hroom
    obtain ⟨date, hdate⟩ := dos11dateEncode_isOk hdates.1
    have hlt : no / ufdEntriesPerBlock < bs.length :=
      (Nat.div_lt_iff_lt_mul (by decide)).mpr (by rw [Nat.mul_comm]; omega)
    rw [renderUfdEntries, renderUfdEntry, List.getElem?_eq_getElem hlt]
    dsimp only
    rw [hdate]
    refine ih hdates.2 ?_
    rw [List.length_set]
    omega

theorem loadFromFileBuffer_isOk {size : ℕ} (hsize : size = blockDatasize ∨ bytes = [])
    (hlen : bytes.length ≤ blockDatasize * bs.length) :
    ∃ out, loadFromFileBuffer size bs bytes = .ok out := by
  induction bs generalizing size bytes with
  | nil =>
    have hnil : bytes = [] := List.length_eq_zero_iff.mp (by simpa using hlen)
    exact ⟨[], if_pos hnil⟩
  | cons b bs ih =>
    rw [List.length_cons, Nat.mul_succ] at hlen
    obtain ⟨out, hout⟩ := ih (full_or_last hsize) (by
      rw [List.length_drop]
      rcases hsize with hsize | hnil
      · omega
      · rw [hnil, List.length_nil]
        omega)
    refine ⟨b.fill (bytes.take (min size bytes.length)) :: out, ?_⟩
    rw [loadFromFileBuffer, hout]
    rfl

theorem renderFileData_isOk (hplain : ∀ f ∈ fs, f.isContiguousFile = false)
    (hdata : ∀ f ∈ fs, f.fileSize = f.data.length)
    (hroom : ∀ f ∈ fs, f.fileSize ≤ blockDatasize * f.blockNrList.length) :
    ∃ q, renderFileData p fs = .ok q := by
  induction fs generalizing p with
  | nil => exact ⟨p, rfl⟩
  | cons f fs ih =>
    rw [List.forall_mem_cons] at hplain hdata hroom
    have hfits : (f.data.take f.fileSize).length ≤
        blockDatasize * (emptyBlocks f.blockNrList).length := by
      rw [List.length_take, length_emptyBlocks]
      exact (Nat.min_le_left _ _).trans hroom.1
    obtain ⟨out, hout⟩ := loadFromFileBuffer_isOk (.inl rfl) hfits
    have hfile : renderFile p f = .ok (writeToImage out p) := by
      rw [renderFile, if_neg (by rw [hdata.1]; exact lt_irrefl _), hout]
      rfl
    rw [renderFileData, hplain.1, if_neg Bool.false_ne_true, hfile]
    exact ih hplain.2 hdata.2 hroom.2

theorem find?_place {blockNr id : ℕ} {ns : List (Node File)} {n' : Node File}
    (h : (place blockNr ns).find? (·.id = id) = some n') :
    ∃ n, ns.find? (·.id = id) = some n ∧ n'.file.data = n.file.data := by
  induction ns generalizing blockNr with
  | nil => cases h
  | cons n ns ih =>
    rw [place] at h
    rw [List.find?_cons]
    split at h
    all_goals
      rw [List.find?_cons] at h
      by_cases hid : n.id = id
      · rw [decide_eq_true hid] at h ⊢
        obtain rfl := Option.some.inj h
        exact ⟨n, rfl, rfl⟩
      · rw [decide_eq_false hid] at h ⊢
        exact ih h

/-- Boot block and monitor keep their data, which has a legal size. -/
theorem data_of_get (hindexed : s.tree.Indexed)
    (hfiles : ∀ n ∈ s.tree.files, Imported s.monitorMaxBlockCount n) {path : Text} {n' : Node File}
    (hget : s.arranged.tree.get path = some n') :
    ∃ n, n.path = path ∧ Imported s.monitorMaxBlockCount n ∧ n'.file.data = n.file.data := by
  obtain ⟨id, hid, hfind⟩ := Option.bind_eq_some_iff.mp hget
  obtain ⟨n, hn, hdata⟩ := find?_place hfind
  have hold : s.tree.get path = some n := by
    rw [FileTree.get, show s.tree.fileByPath path = some id from hid]
    exact hn
  exact ⟨n, hindexed.path_of_get hold, hfiles n (hindexed.get_eq_some.mp hold).2, hdata⟩

theorem renderInternals_isOk (hindexed : s.tree.Indexed)
    (hfiles : ∀ n ∈ s.tree.files, Imported s.monitorMaxBlockCount n) (p : Partition) :
    ∃ q, renderInternals p s.arranged = .ok q := by
  have hboot : ∃ q, renderInternal p s.arranged.bootblock s.layoutInfo.bootBlockNr 1
      (fun size => size = blockSize) .bootblockIllegal = .ok q := by
    unfold renderInternal
    split
    · exact ⟨_, rfl⟩
    · next n' hget =>
      obtain ⟨n, hpath, himp, hdata⟩ := data_of_get hindexed hfiles hget
      rw [hdata, himp.bootblock hpath]
      exact ⟨_, rfl⟩
  obtain ⟨p', hp'⟩ := hboot
  have hmonitor : ∃ q, renderInternal p' s.arranged.monitor s.monitorStartBlockNr
      s.monitorMaxBlockCount (fun size => size ≤ s.monitorMaxBlockCount * blockSize)
        .monitorIllegal = .ok q := by
    unfold renderInternal
    split
    · exact ⟨_, rfl⟩
    · next n' hget =>
      obtain ⟨n, hpath, himp, hdata⟩ := data_of_get hindexed hfiles hget
      rw [hdata, if_pos (decide_eq_true (himp.monitor hpath))]
      exact ⟨_, rfl⟩
  obtain ⟨q, hq⟩ := hmonitor
  refine ⟨q, ?_⟩
  rw [renderInternals]
  have hp' : renderInternal p s.arranged.bootblock s.arranged.layoutInfo.bootBlockNr 1
      (fun size => size = blockSize) .bootblockIllegal = .ok p' := hp'
  rw [hp']
  exact hq

/-- The tables of the drives: some of the UFD, and flags for all blocks if there is no gap -/
theorem documentedLayoutInfo_tables {l : LayoutInfo} (h : documentedLayoutInfo d = some l) :
    0 < l.ufdBlocksNum ∧ (l.Tiles → l.blocksNum ≤ blocksPerMap * l.bitmapBlockCount) := by
  cases d with
  | RP023 =>
    cases h
    refine ⟨by decide, fun htiles => ?_⟩
    have htables := htiles.tables
    simp at htables
  | TU58 | RP0456 | RK035 | RL01 | RL02 | RK067 | RM | RS | TU56 | RX01 | RX02 =>
    cases h
    exact ⟨by decide, fun _ => by decide⟩
  | _ => cases h

theorem tables_of_new (hnew : Fs.new d blocks = .ok s) (htiles : s.layoutInfo.Tiles) :
    0 < s.layoutInfo.ufdBlocksNum ∧
      s.blockcount ≤ blocksPerMap * s.layoutInfo.bitmapBlockCount := by
  obtain ⟨l, hl, rfl⟩ := eq_init_of_new hnew
  obtain ⟨hufd, hflags⟩ := documentedLayoutInfo_tables hl
  by_cases hlarge : l.blocksNum < blocks
  · simp only [Fs.init, if_pos hlarge] at htiles ⊢
    refine ⟨lt_max_of_lt_left hufd, (Nat.min_le_left _ _).trans ?_⟩
    exact le_mul_neededBlocks (by decide) blocks
  · simp only [Fs.init, if_neg hlarge] at htiles ⊢
    exact ⟨hufd, (Nat.min_le_left _ _).trans ((not_lt.mp hlarge).trans (hflags htiles))⟩

theorem length_bitmapBlockList_arranged (s : Fs) :
    s.arranged.bitmapBlockList.length = s.layoutInfo.bitmapBlockCount := by
  show (emptyBlocks s.bitmapNrs).length = _
  rw [length_emptyBlocks, Fs.bitmapNrs, length_blockRow]

/-- Tables that are not empty, and in which everything has a place -/
structure TablesFit (s : Fs) : Prop where
  variety : s.mfdVariety = 1 ∨ s.mfdVariety = 2
  bitmap : 0 < s.layoutInfo.bitmapBlockCount
  flags : s.blockcount ≤ blocksPerMap * s.layoutInfo.bitmapBlockCount
  /-- the first of two MFD blocks has all numbers -/
  mfd : s.mfdVariety = 1 → s.layoutInfo.bitmapBlockCount ≤ 251
  ufd : 0 < s.layoutInfo.ufdBlocksNum
  entries : s.UfdRoom

theorem TablesFit.renderMfd_isOk (h : TablesFit s) : ∃ out, renderMfd s.arranged = .ok out := by
  have hmfdList : s.arranged.mfdBlockList = emptyBlocks (s.layoutInfo.mfdNrs s.mfdVariety) := rfl
  have hbitmapLen := length_bitmapBlockList_arranged s
  have hufdLen := length_ufdBlockList_arranged s
  obtain ⟨b, bs, hb⟩ := List.exists_cons_of_length_pos (hbitmapLen.symm ▸ h.bitmap)
  obtain ⟨u, us, hu⟩ := List.exists_cons_of_length_pos
    (hufdLen.symm ▸ Nat.add_pos_left h.ufd s.ufdExtension)
  rw [hb] at hbitmapLen
  have hvariety : s.arranged.mfdVariety = s.mfdVariety := rfl
  rw [renderMfd, hb, hu, hvariety, hmfdList]
  rcases h.variety with hvar | hvar
  · rw [hvar]
    exact ⟨_, if_neg (by rw [hbitmapLen]; exact not_lt.mpr (h.mfd hvar))⟩
  · rw [hvar]
    exact ⟨_, rfl⟩

/-- Tables and data are rendered if they have a place. -/
theorem TablesFit.renderArranged_isOk (h : TablesFit s)
    (hfiles : ∀ n ∈ s.tree.files, Imported s.monitorMaxBlockCount n)
    (hdata : ∀ f ∈ s.userFiles, f.fileSize ≤ blockDatasize * f.dataBlocks) (p : Partition) :
    ∃ q, renderArranged p s.arranged = .ok q := by
  have hbitmapLen := length_bitmapBlockList_arranged s
  obtain ⟨b, bs, hb⟩ := List.exists_cons_of_length_pos (hbitmapLen.symm ▸ h.bitmap)
  have hflags : s.arranged.blockcount ≤ blocksPerMap * (b :: bs).length := by
    rw [← hb, hbitmapLen]
    exact h.flags
  obtain ⟨bitmap, hbitmap⟩ := renderBitmap_isOk hb hflags
  obtain ⟨mfd, hmfd⟩ := h.renderMfd_isOk
  -- a placed file is an imported one
  have hplaced : ∀ f ∈ s.arranged.userFiles, ∃ nr, ∃ g ∈ s.userFiles, f = g.placed nr ∧
      g.modificationTime.year ≤ 99 ∧ g.fileSize = g.data.length ∧ g.isContiguousFile = false := by
    intro f hf
    obtain ⟨nr, g, hg, rfl⟩ := mem_userFilesOf_place hf
    obtain ⟨hmem, huser⟩ := List.mem_filter.mp hg
    obtain ⟨n, hn, rfl⟩ := List.mem_map.mp hmem
    have himp := hfiles n hn
    refine ⟨nr, n.file, hg, rfl, himp.year, himp.size, ?_⟩
    rw [himp.contiguous]
    simpa using huser
  have hlen : s.arranged.userFiles.length = s.userFiles.length :=
    length_userFilesOf_place s.firstFileBlock s.tree.files
  obtain ⟨ufd, hufd⟩ : ∃ ufd, renderUfd s.arranged = .ok ufd := by
    refine renderUfdEntries_isOk (fun f hf => ?_) ?_
    · obtain ⟨nr, g, -, rfl, hyear, -⟩ := hplaced f hf
      exact hyear
    · rw [hlen, length_ufdBlockList_arranged, Nat.zero_add]
      exact (ufdRoom_iff s).mpr h.entries
  obtain ⟨q, hq⟩ : ∃ q, renderFileData
      (writeToImage ufd (writeToImage mfd (writeToImage bitmap p))) s.arranged.userFiles =
        .ok q := by
    refine renderFileData_isOk (fun f hf => ?_) (fun f hf => ?_) fun f hf => ?_
    · obtain ⟨nr, g, -, rfl, -, -, hplain⟩ := hplaced f hf
      exact hplain
    · obtain ⟨nr, g, -, rfl, -, hsize, -⟩ := hplaced f hf
      exact hsize
    · obtain ⟨nr, g, hg, rfl, -⟩ := hplaced f hf
      show g.fileSize ≤ blockDatasize * (blockRow nr g.dataBlocks).length
      rw [length_blockRow]
      exact hdata g hg
  refine ⟨q, ?_⟩
  rw [renderArranged, hbitmap, hmfd, hufd]
  exact hq

/-- A drive whose areas fill its preallocated blocks has room for the tables. -/
theorem tablesFit_of_reached (hnew : Fs.new d blocks = .ok s₀) (hs : Reached consumeEvent s₀ s)
    (htiles : s.layoutInfo.Tiles) (hroom : s.UfdRoom) : TablesFit s := by
  obtain ⟨hmount, hacc⟩ := accepted_of_reached hnew hs
  have hsame : s.layoutInfo = s₀.layoutInfo ∧ s.blockcount = s₀.blockcount := by
    rw [hacc.layout]
    exact ⟨rfl, rfl⟩
  have hpre := preallocBlocksNum_lt hnew
  obtain ⟨hufd, hflags⟩ := tables_of_new hnew (hsame.1 ▸ htiles)
  rw [← hsame.1] at hpre hufd hflags
  rw [← hsame.2] at hflags
  have hblocks : 0 < s.blockcount := Nat.zero_lt_of_lt hmount.room
  refine ⟨hmount.mfdVariety, ?_, hflags, fun hvar => ?_, hufd, hroom⟩
  · by_contra hzero
    rw [Nat.eq_zero_of_not_pos hzero] at hflags
    omega
  · -- boot block, MFD and UFD come before the end of the preallocated blocks, too
    have htwo : s.layoutInfo.mfdCount = 2 := by
      rw [hmount.variety, LayoutInfo.mfdVariety] at hvar
      rw [LayoutInfo.mfdCount]
      split at hvar
      · next hsome => rw [if_pos hsome]
      · cases hvar
    have htables := htiles.tables
    have hmonitor := htiles.monitor
    omega

/-- When there is a layout, and what it is -/
theorem layout_of_reached (hnew : Fs.new d blocks = .ok s₀) (hs : Reached consumeEvent s₀ s) :
    ((∃ t, calcLayout s = .ok t) ↔ s.Placeable) ∧
      ∀ t, calcLayout s = .ok t → s.Fits ∧ t = s.arranged := by
  obtain ⟨hmount, hacc⟩ := accepted_of_reached hnew hs
  have hend := hacc.endOfFiles_le hmount
  exact ⟨calcLayout_isOk_iff hmount (by unfold Fs.endOfFiles at hend; omega), fun t ht =>
    (calcLayout_eq_ok_iff hmount.mfdVariety (hmount.room.trans_le hmount.small)).mp ht⟩

theorem fileSize_le_of_reached (hnew : Fs.new d blocks = .ok s₀) (hs : Reached consumeEvent s₀ s) :
    ∀ f ∈ s.userFiles, f.fileSize ≤ blockDatasize * f.dataBlocks := by
  intro f hf
  obtain ⟨hmount, hacc⟩ := accepted_of_reached hnew hs
  rw [(hacc.dataBlocks_eq hmount.small hmount.reserved).1 f hf]
  exact le_mul_neededBlocks (by decide) _

theorem render_isOk (hnew : Fs.new d blocks = .ok s₀) (hs : Reached consumeEvent s₀ s)
    (htiles : s.layoutInfo.Tiles) (hplace : s.Placeable) (hroom : s.UfdRoom)
    (himage : s.blockcount ≤ p.blockCount) : ∃ q, render p s = .ok (s.arranged, q) := by
  obtain ⟨hindexed, himported⟩ := imported_of_reached hnew hs
  obtain ⟨hlayout, harranged⟩ := layout_of_reached hnew hs
  obtain ⟨t, ht⟩ := hlayout.mpr hplace
  obtain ⟨-, rfl⟩ := harranged t ht
  have hdata := fileSize_le_of_reached hnew hs
  obtain ⟨p', hp'⟩ := renderInternals_isOk hindexed himported p
  obtain ⟨q, hq⟩ :=
    (tablesFit_of_reached hnew hs htiles hroom).renderArranged_isOk himported hdata p'
  have himage : ¬p.blockCount < s.arranged.blockcount := not_lt.mpr himage
  refine ⟨q, ?_⟩
  rw [render, ht]
  dsimp only
  rw [if_neg himage, hp']
  dsimp only
  rw [hq]

/-- Where the areas of the drive fill its preallocated blocks, files are rendered if there is a
layout for them, with an entry for every file, and the image is large enough. -/
theorem render_returns_iff (p : Partition) (hnew : Fs.new d blocks = .ok s₀)
    (hs : Reached consumeEvent s₀ s) (htiles : s.layoutInfo.Tiles) :
    (∃ r, render p s = .ok r) ↔ s.Placeable ∧ s.UfdRoom ∧ s.blockcount ≤ p.blockCount := by
  constructor
  · rintro ⟨⟨t, q⟩, hok⟩
    obtain ⟨hlayout, harranged⟩ := layout_of_reached hnew hs
    obtain ⟨ht, himage, p', -, hq⟩ := render_eq_ok hok
    obtain ⟨-, rfl⟩ := harranged t ht
    exact ⟨hlayout.mp ⟨_, ht⟩, (ufdRoom_iff s).mp (room_of_renderArranged hq), himage⟩
  · rintro ⟨hplace, hroom, himage⟩
    obtain ⟨q, hq⟩ := render_isOk hnew hs htiles hplace hroom himage
    exact ⟨_, hq⟩

/-- Two files on an RL02 -/
theorem exists_pack : ∃ s₀ s, Fs.new .RL02 20460 = .ok s₀ ∧ Reached consumeEvent s₀ s ∧
    s.layoutInfo.Tiles ∧ s.Placeable ∧ s.UfdRoom ∧ s.arranged.ufdBlockList.length = 146 ∧
      s.blockcount = 20460 := by
  refine ⟨_, _, rfl, (Reached.start.next (.create smallFile) rfl).next
    (.create { smallFile with filename := ['B'] }) rfl,
      ⟨rfl, rfl, Or.inl rfl, Or.inr ⟨rfl, rfl, rfl⟩, by decide⟩, ⟨?_, ?_, ?_⟩, ?_, ?_, rfl⟩
  · exact le_rfl
  · intro f hf
    rcases List.mem_cons.mp hf with rfl | hf
    · decide
    · obtain rfl := List.mem_singleton.mp hf
      decide
  · exact Or.inr (by decide)
  · exact Or.inl (by decide)
  · rw [length_ufdBlockList_arranged]
    decide

theorem render_returns_pack : ∃ s₀ s, Fs.new .RL02 20460 = .ok s₀ ∧
    Reached consumeEvent s₀ s ∧ ((∃ r, render (imageOf 20460 []) s = .ok r) ↔
      s.Placeable ∧ s.UfdRoom ∧ s.blockcount ≤ 20460) := by
  obtain ⟨s₀, s, hnew, hs, htiles, -⟩ := exists_pack
  exact ⟨s₀, s, hnew, hs, render_returns_iff (imageOf 20460 []) hnew hs htiles⟩

/-! ## What a rendered image holds -/

end QUniBone.XXDP
