import QUniBone.Sharedfs.NameCollisions

/-!
# RT-11: the host files of one file

The data of an RT-11 file, its prefix block and the extra bytes of its directory entry are three
host files, which the host tells of in any order and more than once.

* `StreamGroup`: these host files.
* `importHostFiles_first`: an import takes the first of them, and leaves the others alone.
* `orderIndependent_iff`: when all of them are there after the import.
-/

namespace QUniBone.RT11

open Sharedfs

/-- The host files of one file, told by their names -/
structure StreamGroup where
  data : HostFile
  prefixBlock : Option HostFile
  dirExt : Option HostFile
  dataName : splitStreamCode data.filename = (data.filename, .data)
  prefixName : ∀ h, prefixBlock = some h →
    splitStreamCode h.filename = (data.filename, .prefixBlock)
  dirExtName : ∀ h, dirExt = some h → splitStreamCode h.filename = (data.filename, .dirExt)

namespace StreamGroup

variable (g : StreamGroup)

def hostFiles : List HostFile := g.data :: (g.prefixBlock.toList ++ g.dirExt.toList)

/-- The path of the RT-11 file -/
def path : Text := decPath g.data.filename

variable {g}

theorem mem_hostFiles {h : HostFile} :
    h ∈ g.hostFiles ↔ h = g.data ∨ g.prefixBlock = some h ∨ g.dirExt = some h := by
  simp [hostFiles]

theorem splitStreamCode_of_mem {h : HostFile} (hh : h ∈ g.hostFiles) :
    (splitStreamCode h.filename).1 = g.data.filename := by
  rcases mem_hostFiles.mp hh with rfl | hpre | hext
  · rw [g.dataName]
  · rw [g.prefixName h hpre]
  · rw [g.dirExtName h hext]

/-- They have one DEC name. -/
theorem decName_of_mem {h : HostFile} (hh : h ∈ g.hostFiles) :
    decName h.filename = decName g.data.filename := by
  rw [decName, decName, splitStreamCode_of_mem hh, g.dataName]

theorem decPath_of_mem {h : HostFile} (hh : h ∈ g.hostFiles) : decPath h.filename = g.path := by
  rw [path, decPath, decPath, decName_of_mem hh]

end StreamGroup

/-- Host files are told of one after the other. -/
def importHostFiles : List HostFile → EStateM Failure Fs Unit
  | [] => pure ()
  | h :: hs => do
    importHostFile h
    importHostFiles hs

/-- Each of the host files is one that is imported: none of the refusals applies to it. -/
structure StreamGroup.Importable (s : Fs) (g : StreamGroup) : Prop where
  indexed : s.tree.Indexed
  new : s.tree.get g.path = none
  name : decName g.data.filename ≠ volumeInfoName
  accepted : ∀ h ∈ g.hostFiles, h.Accepted
  notEmpty : ∀ h ∈ g.hostFiles, h.fileSize ≠ 0
  size : ∀ h ∈ g.hostFiles, internalSizeError (decName h.filename) h.fileSize = none
  room : ∀ h ∈ g.hostFiles,
    ∃ t, calcBlockUse (if isInternal (decName h.filename) then 0 else h.fileSize) s = .ok () t

/-- However the host tells of them, one and the same file comes out, with all their contents. -/
def OrderIndependent (s : Fs) (g : StreamGroup) : Prop :=
  ∃ f : File,
    (∀ h ∈ g.hostFiles, ∃ st, f.stream (splitStreamCode h.filename).2 = some st ∧
      st.data = h.data) ∧
    ∀ hs : List HostFile, (∀ h, h ∈ hs ↔ h ∈ g.hostFiles) →
      ∃ t n, importHostFiles hs s = .ok () t ∧ t.tree.get g.path = some n ∧ n.file = f

/-! ## What is imported -/

theorem stream_newFile (h : HostFile) (internal : Bool) :
    (newFile h internal).stream (splitStreamCode h.filename).2 =
      some ⟨h.path, h.data, 0, false⟩ := File.stream_setStream ..

theorem stream_newFile_of_ne {h : HostFile} {internal : Bool} {code : StreamCode}
    (hcode : code ≠ (splitStreamCode h.filename).2) :
    (newFile h internal).stream code = none := by
  unfold newFile
  simp only
  rw [File.stream_setStream_of_ne _ hcode]
  cases code <;> rfl

/-- A file that is there is not touched, whether it has the stream or not. -/
theorem importHostFile_of_exists {h : HostFile} {s : Fs}
    (hexists : (s.tree.get (decPath h.filename)).isSome) : importHostFile h s = .ok () s := by
  unfold importHostFile
  simp only
  by_cases hacc : h.Accepted
  · rw [if_neg (not_not.mpr hacc), if_pos hexists]
  · rw [if_pos hacc]

theorem importHostFiles_of_exists {s : Fs} {hs : List HostFile}
    (hexists : ∀ h ∈ hs, (s.tree.get (decPath h.filename)).isSome) :
    importHostFiles hs s = .ok () s := by
  induction hs with
  | nil => rfl
  | cons h hs ih =>
    have hfirst := importHostFile_of_exists (hexists h (by simp))
    have hrest := ih fun k hk => hexists k (List.mem_cons_of_mem _ hk)
    show EStateM.bind (importHostFile h) (fun _ => importHostFiles hs) s = _
    rw [EStateM.bind, hfirst]
    exact hrest

/-- A new file is made of the first host file. -/
theorem importHostFile_new {s : Fs} {g : StreamGroup} (hg : g.Importable s) {h : HostFile}
    (hh : h ∈ g.hostFiles) : ∃ t, importHostFile h s = .ok () t ∧
      t.tree = s.tree.addFile g.path (newFile h (isInternal (decName h.filename))) := by
  obtain ⟨u, hu⟩ := hg.room h hh
  have htree : u.tree = s.tree := by
    have hcalc := calcBlockUse_tree
      (if isInternal (decName h.filename) then 0 else h.fileSize) s
    rwa [hu] at hcalc
  have hname : decName h.filename ≠ volumeInfoName := by
    rw [StreamGroup.decName_of_mem hh]
    exact hg.name
  have hpath := StreamGroup.decPath_of_mem hh
  have hnew : ¬(s.tree.get g.path).isSome := by
    rw [hg.new]
    decide
  unfold importHostFile
  simp only [hpath, hg.size h hh, hu]
  rw [if_neg (not_not.mpr (hg.accepted h hh)), if_neg hnew, if_neg (hg.notEmpty h hh),
    if_neg hname]
  exact ⟨_, rfl, by rw [htree]⟩

/-- The first host file is all that comes out. -/
theorem importHostFiles_first {s : Fs} {g : StreamGroup} (hg : g.Importable s) {h : HostFile}
    (hh : h ∈ g.hostFiles) {hs : List HostFile} (hhs : ∀ k ∈ hs, k ∈ g.hostFiles) :
    ∃ t n, importHostFiles (h :: hs) s = .ok () t ∧ t.tree.get g.path = some n ∧
      n.file = newFile h (isInternal (decName h.filename)) := by
  obtain ⟨t, ht, htree⟩ := importHostFile_new hg hh
  have hget : t.tree.get g.path =
      some ⟨s.tree.next, g.path, newFile h (isInternal (decName h.filename))⟩ := by
    rw [htree, hg.indexed.get_addFile]
  refine ⟨t, _, ?_, hget, rfl⟩
  show EStateM.bind (importHostFile h) (fun _ => importHostFiles hs) s = _
  rw [EStateM.bind, ht]
  refine importHostFiles_of_exists fun k hk => ?_
  rw [StreamGroup.decPath_of_mem (hhs k hk), hget]
  rfl

/-! ## Any order -/

/-- With the data file first, no other stream is there. -/
theorem alone_of_orderIndependent {s : Fs} {g : StreamGroup} (hg : g.Importable s)
    (h : OrderIndependent s g) : g.prefixBlock = none ∧ g.dirExt = none := by
  obtain ⟨f, hholds, horders⟩ := h
  have hdata : g.data ∈ g.hostFiles := StreamGroup.mem_hostFiles.mpr (Or.inl rfl)
  obtain ⟨t, n, ht, hn, rfl⟩ := horders g.hostFiles fun _ => Iff.rfl
  have hrest : ∀ k ∈ g.prefixBlock.toList ++ g.dirExt.toList, k ∈ g.hostFiles := fun k hk =>
    List.mem_cons_of_mem _ hk
  obtain ⟨t', n', ht', hn', hfile⟩ := importHostFiles_first hg hdata hrest
  have hsame : n = n' := by
    have hstate : t = t' := by
      have heq := ht.symm.trans ht'
      simpa using heq
    subst hstate
    exact Option.some.inj (hn.symm.trans hn')
  have honly : ∀ k ∈ g.hostFiles, (splitStreamCode k.filename).2 = .data := by
    intro k hk
    by_contra hne
    obtain ⟨st, hst, -⟩ := hholds k hk
    have hcode : (splitStreamCode k.filename).2 ≠ (splitStreamCode g.data.filename).2 := by
      rw [g.dataName]
      exact hne
    rw [hsame, hfile, stream_newFile_of_ne hcode] at hst
    cases hst
  constructor
  · cases hpre : g.prefixBlock with
    | none => rfl
    | some k =>
      have hcode := honly k (StreamGroup.mem_hostFiles.mpr (Or.inr (Or.inl hpre)))
      rw [g.prefixName k hpre] at hcode
      cases hcode
  · cases hext : g.dirExt with
    | none => rfl
    | some k =>
      have hcode := honly k (StreamGroup.mem_hostFiles.mpr (Or.inr (Or.inr hext)))
      rw [g.dirExtName k hext] at hcode
      cases hcode

/-- All is there in any order only if the data is all that there is. -/
theorem orderIndependent_iff {s : Fs} {g : StreamGroup} (hg : g.Importable s) :
    OrderIndependent s g ↔ g.prefixBlock = none ∧ g.dirExt = none := by
  refine ⟨alone_of_orderIndependent hg, ?_⟩
  rintro ⟨hpre, hext⟩
  have honly : ∀ h, h ∈ g.hostFiles ↔ h = g.data := by
    intro h
    simp [StreamGroup.mem_hostFiles, hpre, hext]
  have hdata : g.data ∈ g.hostFiles := (honly _).mpr rfl
  refine ⟨newFile g.data (isInternal (decName g.data.filename)), ?_, ?_⟩
  · intro h hh
    rw [(honly h).mp hh]
    exact ⟨_, stream_newFile _ _, rfl⟩
  · intro hs hall
    cases hs with
    | nil => exact absurd ((hall _).mpr hdata) (by simp)
    | cons h hs =>
      have hfirst : h = g.data := (honly h).mp ((hall h).mp (by simp))
      subst hfirst
      exact importHostFiles_first hg hdata fun k hk => (hall k).mp (List.mem_cons_of_mem _ hk)

/-! ## `LOGGER.DAT` -/

/-- The data, in one byte -/
def loggerDat : HostFile where
  dir := []
  filename := "LOGGER.DAT".toList
  isDir := false
  data := [1]
  modificationTime := ⟨85, 0, 1⟩
  readonly := false

/-- The prefix block, in one byte -/
def loggerPrefix : HostFile :=
  { loggerDat with filename := "LOGGER.DAT.prefix".toList, data := [2] }

/-- Without a prefix block -/
def loggerPlain : StreamGroup where
  data := loggerDat
  prefixBlock := none
  dirExt := none
  dataName := by decide
  prefixName _ h := by cases h
  dirExtName _ h := by cases h

/-- With its prefix block -/
def loggerPrefixed : StreamGroup where
  data := loggerDat
  prefixBlock := some loggerPrefix
  dirExt := none
  dataName := by decide
  prefixName h hh := by
    cases hh
    decide
  dirExtName _ h := by cases h

theorem room_logger {h : HostFile} (hname : isInternal (decName h.filename) = false)
    (hsize : h.fileSize = 1) :
    ∃ t, calcBlockUse (if isInternal (decName h.filename) then 0 else h.fileSize) rt11Rl02 =
      .ok () t := by
  rw [hname, hsize]
  exact ⟨_, rfl⟩

theorem loggerPlain_importable : loggerPlain.Importable rt11Rl02 where
  indexed := FileTree.empty_indexed
  new := rfl
  name := by decide
  accepted := by decide
  notEmpty := by decide
  size := by decide
  room h hh := by
    obtain rfl : h = loggerDat := List.mem_singleton.mp hh
    exact room_logger (by decide) rfl

theorem loggerPrefixed_importable : loggerPrefixed.Importable rt11Rl02 where
  indexed := FileTree.empty_indexed
  new := rfl
  name := by decide
  accepted := by decide
  notEmpty := by decide
  size := by decide
  room h hh := by
    rcases StreamGroup.mem_hostFiles.mp hh with rfl | hpre | hext
    · exact room_logger (by decide) rfl
    · obtain rfl := Option.some.inj hpre
      exact room_logger (by decide) rfl
    · cases hext

theorem orderIndependent_plain : OrderIndependent rt11Rl02 loggerPlain :=
  (orderIndependent_iff loggerPlain_importable).mpr ⟨rfl, rfl⟩

/-- The prefix block is ignored if it comes behind the data. -/
theorem prefixBlock_ignored :
    ¬∀ (s : Fs) (g : StreamGroup), g.Importable s → OrderIndependent s g := by
  intro h
  have halone := alone_of_orderIndependent loggerPrefixed_importable
    (h _ _ loggerPrefixed_importable)
  cases halone.1

end QUniBone.RT11
