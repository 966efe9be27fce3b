import QUniBone.Sharedfs.Xxdp

/-!
# XXDP: host files of one DEC name

Several host names stand for one DEC name. A file records the path of the host file it comes from.

* `fileAt`: the file that a host path stands for.
* `importHostFile_tree`, `deleteHostFile_tree`: what an import and a deletion do.
* `kept_iff`, `history_kept_iff`: when an event leaves the files of other host files alone.
-/

namespace QUniBone.XXDP

open Sharedfs Prog

/-- The file that a host path stands for -/
def fileAt (s : Fs) (hostPath : Text) : Option (Node File) :=
  if directories hostPath = ['/'] then s.tree.get (decPath (filename hostPath)) else none

/-- `$VOLUM.INF`, and host names that stand for it -/
def IsVolumeInfo (hostPath : Text) : Prop := decName (filename hostPath) = volumeInfoName

instance decidableIsVolumeInfo (hostPath : Text) : Decidable (IsVolumeInfo hostPath) :=
  inferInstanceAs (Decidable (_ = _))

theorem fileAt_of_dir {s : Fs} {q : Text} (h : directories q = ['/']) :
    fileAt s q = s.tree.get (decPath (filename q)) := if_pos h

theorem dir_of_fileAt {s : Fs} {p : Text} {n : Node File} (h : fileAt s p = some n) :
    directories p = ['/'] := by
  by_contra hdir
  rw [fileAt, if_neg hdir] at h
  contradiction

/-- An import adds a file of a new path, if anything. -/
theorem importHostFile_tree (h : HostFile) (s : Fs) :
    (finalState (importHostFile h s)).tree = s.tree ∨
      s.tree.get (decPath h.filename) = none ∧
        (finalState (importHostFile h s)).tree =
          s.tree.addFile (decPath h.filename) (newFile h (isInternal (decName h.filename))) := by
  unfold importHostFile
  dsimp only
  split
  · exact Or.inl rfl
  split
  · exact Or.inl rfl
  next hnew =>
  split
  · exact Or.inl rfl
  split
  · exact Or.inl rfl
  split
  · exact Or.inl rfl
  split
  · exact Or.inl rfl
  · exact Or.inl rfl
  · exact Or.inr ⟨by simpa using hnew, rfl⟩

theorem importHostFile_indexed (h : HostFile) {s : Fs} (hs : s.tree.Indexed) :
    (finalState (importHostFile h s)).tree.Indexed := by
  rcases importHostFile_tree h s with heq | ⟨-, heq⟩
  · rwa [heq]
  · rw [heq]
    exact hs.addFile _ _

theorem fileAt_importHostFile (h : HostFile) {s : Fs} (hs : s.tree.Indexed) {q : Text}
    {n : Node File} (hn : fileAt s q = some n) :
    fileAt (finalState (importHostFile h s)) q = some n := by
  have hdir := dir_of_fileAt hn
  rw [fileAt_of_dir hdir] at hn ⊢
  rcases importHostFile_tree h s with heq | ⟨hnone, heq⟩
  · rwa [heq]
  · have hne : decPath (filename q) ≠ decPath h.filename := by
      intro hp
      rw [hp, hnone] at hn
      contradiction
    rw [heq, hs.get_addFile_of_ne hne, hn]

/-- A file that an import brings has its owner. -/
theorem hostPath_importHostFile {h : HostFile} {s : Fs} (hs : s.tree.Indexed) {q : Text}
    {n : Node File} (hnone : fileAt s q = none)
    (hn : fileAt (finalState (importHostFile h s)) q = some n) : n.file.hostPath = h.path := by
  have hdir := dir_of_fileAt hn
  rw [fileAt_of_dir hdir] at hn hnone
  rcases importHostFile_tree h s with heq | ⟨-, heq⟩
  · rw [heq, hnone] at hn
    contradiction
  · by_cases hp : decPath (filename q) = decPath h.filename
    · rw [heq, hp, hs.get_addFile] at hn
      exact Option.some.inj hn ▸ rfl
    · rw [heq, hs.get_addFile_of_ne hp, hnone] at hn
      contradiction

theorem deleteHostFile_of_none {s : Fs} {path : Text}
    (h : fileAt s path = none ∨ IsVolumeInfo path) : deleteHostFile path s = s := by
  unfold deleteHostFile
  split
  · rfl
  next hdir =>
  rw [fileAt_of_dir (not_not.mp hdir)] at h
  split
  · rfl
  · next n hn =>
    split
    · rfl
    next hvol =>
    rcases h with hnone | hvol'
    · rw [hnone] at hn
      contradiction
    · exact absurd hvol' hvol

theorem deleteHostFile_tree {s : Fs} {path : Text} {n : Node File} (hn : fileAt s path = some n)
    (hvol : ¬IsVolumeInfo path) : (deleteHostFile path s).tree = s.tree.removeFile n := by
  have hdir := dir_of_fileAt hn
  have hvol : decName (filename path) ≠ volumeInfoName := hvol
  rw [fileAt_of_dir hdir] at hn
  unfold deleteHostFile
  simp only [hdir, hn, hvol, ne_eq, not_true_eq_false, ↓reduceIte]

theorem deleteHostFile_indexed {s : Fs} (hs : s.tree.Indexed) (path : Text) :
    (deleteHostFile path s).tree.Indexed := by
  by_cases h : fileAt s path = none ∨ IsVolumeInfo path
  · rwa [deleteHostFile_of_none h]
  · obtain ⟨hsome, hvol⟩ := not_or.mp h
    obtain ⟨n, hn⟩ := Option.ne_none_iff_exists'.mp hsome
    rw [deleteHostFile_tree hn hvol]
    rw [fileAt_of_dir (dir_of_fileAt hn)] at hn
    exact hs.removeFile (hs.get_eq_some.mp hn).2

theorem fileAt_deleteHostFile {s : Fs} (hs : s.tree.Indexed) {path : Text} {n : Node File}
    (hn : fileAt s path = some n) (hvol : ¬IsVolumeInfo path) :
    fileAt (deleteHostFile path s) path = none := by
  have htree := deleteHostFile_tree hn hvol
  have hdir := dir_of_fileAt hn
  rw [fileAt_of_dir hdir] at hn ⊢
  rw [htree, ← hs.path_of_get hn, hs.get_removeFile (hs.get_eq_some.mp hn).2]

/-- A deletion takes away the file of this path and no other. -/
theorem fileAt_deleteHostFile_of_ne {s : Fs} (hs : s.tree.Indexed) {path q : Text}
    {n m : Node File} (hn : fileAt s path = some n) (hvol : ¬IsVolumeInfo path)
    (hm : fileAt s q = some m) (hne : m ≠ n) : fileAt (deleteHostFile path s) q = some m := by
  have htree := deleteHostFile_tree hn hvol
  have hdir := dir_of_fileAt hn
  have hqdir := dir_of_fileAt hm
  rw [fileAt_of_dir hdir] at hn
  rw [fileAt_of_dir hqdir] at hm ⊢
  have hpath : decPath (filename q) ≠ n.path := by
    rw [hs.path_of_get hn]
    intro heq
    rw [heq, hn] at hm
    exact hne (Option.some.inj hm).symm
  rw [htree, hs.get_removeFile_of_ne (hs.get_eq_some.mp hn).2 hpath, hm]

/-! ## Events -/

/-- What an event must do and must not do to the files. -/
structure Kept (s : Fs) (e : HostEvent) (t : Fs) : Prop where
  undisturbed : ∀ q n, fileAt s q = some n → n.file.hostPath ≠ e.path → fileAt t q = some n
  fileGone : ∀ p n, e = .delete p → fileAt s p = some n → n.file.hostPath = p → fileAt t p = none

/-- Nobody but its owner deletes or changes a file. `$VOLUM.INF` is left alone. -/
def ByOwner (s : Fs) : HostEvent → Prop
  | .create _ => True
  | .modify file => ∀ n, fileAt s file.path = some n → n.file.hostPath ≠ file.path →
      IsVolumeInfo file.path
  | .delete p => ∀ n, fileAt s p = some n → (n.file.hostPath = p ↔ ¬IsVolumeInfo p)

theorem undisturbed_delete {s : Fs} (hs : s.tree.Indexed) {p : Text}
    (h : ∀ n, fileAt s p = some n → n.file.hostPath ≠ p → IsVolumeInfo p) {q : Text}
    {m : Node File} (hm : fileAt s q = some m) (hne : m.file.hostPath ≠ p) :
    fileAt (deleteHostFile p s) q = some m := by
  by_cases hnone : fileAt s p = none ∨ IsVolumeInfo p
  · rwa [deleteHostFile_of_none hnone]
  · obtain ⟨hsome, hvol⟩ := not_or.mp hnone
    obtain ⟨n, hn⟩ := Option.ne_none_iff_exists'.mp hsome
    refine fileAt_deleteHostFile_of_ne hs hn hvol hm ?_
    rintro rfl
    exact hvol (h _ hn hne)

theorem kept_iff {s : Fs} (hs : s.tree.Indexed) (e : HostEvent) :
    Kept s e (finalState (consumeEvent s e)) ↔ ByOwner s e := by
  cases e with
  | create file =>
    refine ⟨fun _ => trivial, fun _ => ⟨?_, ?_⟩⟩
    · intro q n hn _
      exact fileAt_importHostFile file hs hn
    · intro p n he
      cases he
  | modify file =>
    have hdel := deleteHostFile_indexed hs file.path
    constructor
    · intro hkept n hn hne
      by_contra hvol
      have hgone := fileAt_deleteHostFile hs hn hvol
      -- what is there afterwards has come with this import
      exact hne (hostPath_importHostFile hdel hgone (hkept.undisturbed _ n hn hne))
    · intro h
      refine ⟨?_, ?_⟩
      · intro q n hn hne
        exact fileAt_importHostFile file hdel (undisturbed_delete hs h hn hne)
      · intro p n he
        cases he
  | delete p =>
    constructor
    · intro hkept n hn
      constructor
      · intro hown hvol
        have hgone := hkept.fileGone p n rfl hn hown
        rw [consumeEvent, finalState_ok, deleteHostFile_of_none (Or.inr hvol), hn] at hgone
        contradiction
      · intro hvol
        by_contra hne
        have hstays := hkept.undisturbed p n hn hne
        rw [consumeEvent, finalState_ok, fileAt_deleteHostFile hs hn hvol] at hstays
        contradiction
    · intro h
      refine ⟨?_, ?_⟩
      · intro q n hn hne
        exact undisturbed_delete hs
          (fun n hn hne => by_contra fun hvol => hne ((h n hn).2 hvol)) hn hne
      · rintro p' n he hn hown
        obtain rfl := HostEvent.delete.inj he
        exact fileAt_deleteHostFile hs hn ((h n hn).1 hown)

theorem consumeEvent_indexed (s : Fs) (e : HostEvent) (hs : s.tree.Indexed) :
    (finalState (consumeEvent s e)).tree.Indexed := by
  cases e with
  | create file => exact importHostFile_indexed file hs
  | modify file => exact importHostFile_indexed file (deleteHostFile_indexed hs _)
  | delete p => exact deleteHostFile_indexed hs p

/-- Over a sequence of events. -/
theorem history_kept_iff {s : Fs} (hs : s.tree.Indexed) (es : List HostEvent) :
    (∀ c ∈ history consumeEvent s es, Kept c.before c.event c.after) ↔
      ∀ c ∈ history consumeEvent s es, ByOwner c.before c.event := by
  refine forall₂_congr fun c hc => ?_
  obtain ⟨hbefore, hafter⟩ := history_before consumeEvent_indexed hs hc
  rw [hafter]
  exact kept_iff hbefore c.event

end QUniBone.XXDP
