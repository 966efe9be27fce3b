import QUniBone.Sharedfs.Rt11

/-!
# RT-11: host files of one DEC name

Several host names stand for one DEC name. A stream records the path of the host file it comes
from.

* `streamAt`: the stream that a host path stands for.
* `importHostFile_tree`, `get_deleteHostFile`: what an import and a deletion do.
* `undisturbed_iff`: when an event leaves the streams of other host files alone.
* `ownerGone_iff`: when the stream of a deleted host file is gone.
-/

namespace QUniBone.RT11

open Sharedfs Prog

/-! ## What the operations do -/

theorem calcBlockUse_tree (n : ℕ) (s : Fs) : (finalState (calcBlockUse n s)).tree = s.tree := by
  unfold calcBlockUse
  split
  · rfl
  split
  · rfl
  split
  · rfl
  split
  · rfl
  · rfl

/-- An import adds a file of a new path, if anything. -/
theorem importHostFile_tree (h : HostFile) (s : Fs) :
    (finalState (importHostFile h s)).tree = s.tree ∨
      s.tree.get (decPath h.filename) = none ∧
        (finalState (importHostFile h s)).tree =
          s.tree.addFile (decPath h.filename) (newFile h (isInternal (decName h.filename))) := by
  have hcalc := calcBlockUse_tree (if isInternal (decName h.filename) then 0 else h.fileSize) s
  unfold importHostFile
  dsimp only
  split
  · exact Or.inl rfl
  split
  · exact Or.inl rfl
  next hnew =>
  split
  · exact Or.inl rfl
  split
  · exact Or.inl rfl
  split
  · exact Or.inl rfl
  split
  · next heq => exact Or.inl (by rwa [heq] at hcalc)
  · next heq => exact Or.inl (by rwa [heq] at hcalc)
  · next heq =>
    rw [heq] at hcalc
    refine Or.inr ⟨by simpa using hnew, ?_⟩
    rw [← show _ = s.tree from hcalc]
    rfl

theorem importHostFile_indexed (h : HostFile) {s : Fs} (hs : s.tree.Indexed) :
    (finalState (importHostFile h s)).tree.Indexed := by
  rcases importHostFile_tree h s with heq | ⟨-, heq⟩
  · rwa [heq]
  · rw [heq]
    exact hs.addFile _ _

/-- Files that are there stay as they are. -/
theorem get_importHostFile (h : HostFile) {s : Fs} (hs : s.tree.Indexed) {path : Text}
    {n : Node File} (hget : s.tree.get path = some n) :
    (finalState (importHostFile h s)).tree.get path = some n := by
  rcases importHostFile_tree h s with heq | ⟨hnone, heq⟩
  · rwa [heq]
  · have hne : path ≠ decPath h.filename := by
      rintro rfl
      rw [hnone] at hget
      contradiction
    rw [heq, hs.get_addFile_of_ne hne, hget]

theorem get_importHostFile_new (h : HostFile) {s : Fs} (hs : s.tree.Indexed) {path : Text}
    (hget : s.tree.get path = none) {n : Node File}
    (hnew : (finalState (importHostFile h s)).tree.get path = some n) :
    path = decPath h.filename ∧ n.file = newFile h (isInternal (decName h.filename)) := by
  rcases importHostFile_tree h s with heq | ⟨-, heq⟩
  · rw [heq, hget] at hnew
    contradiction
  · by_cases hp : path = decPath h.filename
    · subst hp
      rw [heq, hs.get_addFile] at hnew
      exact ⟨rfl, Option.some.inj hnew ▸ rfl⟩
    · rw [heq, hs.get_addFile_of_ne hp, hget] at hnew
      contradiction

/-! ## Streams of host paths -/

/-- The file that a host path stands for -/
def nodeAt (s : Fs) (hostPath : Text) : Option (Node File) :=
  if directories hostPath = ['/'] then s.tree.get (decPath (filename hostPath)) else none

/-- The stream that a host path stands for -/
def codeOf (hostPath : Text) : StreamCode := (splitStreamCode (filename hostPath)).2

def streamAt (s : Fs) (hostPath : Text) : Option Stream :=
  (nodeAt s hostPath).bind (·.file.stream (codeOf hostPath))

/-- `$VOLUM.INF`, and host names that stand for it -/
def IsVolumeInfo (hostPath : Text) : Prop := decName (filename hostPath) = volumeInfoName

instance decidableIsVolumeInfo (hostPath : Text) : Decidable (IsVolumeInfo hostPath) :=
  inferInstanceAs (Decidable (_ = _))

namespace File

theorem stream_setStream (f : File) (code : StreamCode) (st : Option Stream) :
    (f.setStream code st).stream code = st := by
  cases code <;> rfl

theorem stream_setStream_of_ne (f : File) {code code' : StreamCode} (h : code' ≠ code)
    (st : Option Stream) : (f.setStream code st).stream code' = f.stream code' := by
  cases code <;> cases code' <;> first | rfl | exact absurd rfl h

theorem noStream_iff (f : File) : f.NoStream ↔ ∀ code, f.stream code = none := by
  constructor
  · rintro ⟨hdata, hext, hpre⟩ code
    cases code
    · exact hdata
    · exact hext
    · exact hpre
  · intro h
    exact ⟨h .data, h .dirExt, h .prefixBlock⟩

end File

/-- A deletion that finds a stream takes it out of the file. -/
theorem deleteHostFile_of_stream {s : Fs} {path : Text} {n : Node File}
    (hn : nodeAt s path = some n) (hst : n.file.stream (codeOf path) ≠ none)
    (hvol : ¬IsVolumeInfo path) :
    (deleteHostFile path s).tree =
      if (n.file.setStream (codeOf path) none).NoStream then s.tree.removeFile n
      else s.tree.modify n.id fun _ => n.file.setStream (codeOf path) none := by
  unfold nodeAt at hn
  split at hn
  · next hdir =>
    unfold deleteHostFile
    have hst : n.file.stream (splitStreamCode (filename path)).2 ≠ none := hst
    have hvol : decName (filename path) ≠ volumeInfoName := hvol
    simp only [hdir, hn, hst, hvol, ne_eq, not_true_eq_false, ↓reduceIte]
    exact apply_ite Fs.tree _ _ _
  · contradiction

/-- Else nothing happens. -/
theorem deleteHostFile_of_none {s : Fs} {path : Text}
    (h : streamAt s path = none ∨ IsVolumeInfo path) : deleteHostFile path s = s := by
  unfold deleteHostFile
  dsimp only
  split
  · rfl
  next hdir =>
  have hnode : nodeAt s path = s.tree.get (decPath (filename path)) := if_pos (not_not.mp hdir)
  split
  · rfl
  · next n hn =>
    rw [← hnode] at hn
    split
    · rfl
    next hst =>
    split
    · rfl
    next hvol =>
    rcases h with hnone | hvol'
    · rw [streamAt, hn] at hnone
      exact absurd hnone hst
    · exact absurd hvol' hvol

theorem mem_of_nodeAt {s : Fs} (hs : s.tree.Indexed) {path : Text} {n : Node File}
    (h : nodeAt s path = some n) : n ∈ s.tree.files ∧ n.path = decPath (filename path) ∧
      directories path = ['/'] := by
  unfold nodeAt at h
  split at h
  · next hdir => exact ⟨(hs.get_eq_some.mp h).2, hs.path_of_get h, hdir⟩
  · contradiction

theorem deleteHostFile_indexed {s : Fs} (hs : s.tree.Indexed) (path : Text) :
    (deleteHostFile path s).tree.Indexed := by
  by_cases h : streamAt s path = none ∨ IsVolumeInfo path
  · rwa [deleteHostFile_of_none h]
  · obtain ⟨hst, hvol⟩ := not_or.mp h
    obtain ⟨n, hn, hne⟩ : ∃ n, nodeAt s path = some n ∧ n.file.stream (codeOf path) ≠ none := by
      cases hnode : nodeAt s path with
      | none => exact absurd (by rw [streamAt, hnode, Option.bind_none]) hst
      | some n => exact ⟨n, rfl, by rwa [streamAt, hnode, Option.bind_some] at hst⟩
    rw [deleteHostFile_of_stream hn hne hvol]
    split
    · exact hs.removeFile (mem_of_nodeAt hs hn).1
    · exact hs.modify _ _

/-- Host paths of one stream -/
def SameStream (p q : Text) : Prop :=
  directories q = ['/'] ∧ decPath (filename q) = decPath (filename p) ∧ codeOf q = codeOf p

theorem nodeAt_of_dir {s : Fs} {q : Text} (h : directories q = ['/']) :
    nodeAt s q = s.tree.get (decPath (filename q)) := if_pos h

theorem streamAt_of_not_dir {s : Fs} {q : Text} (h : directories q ≠ ['/']) :
    streamAt s q = none := by
  rw [streamAt, nodeAt, if_neg h, Option.bind_none]

/-- What a deletion does to the streams of all host paths. -/
theorem streamAt_deleteHostFile {s : Fs} (hs : s.tree.Indexed) {path : Text} {st : Stream}
    (hst : streamAt s path = some st) (hvol : ¬IsVolumeInfo path) (q : Text) :
    (SameStream path q → streamAt (deleteHostFile path s) q = none) ∧
      (¬SameStream path q → streamAt (deleteHostFile path s) q = streamAt s q) := by
  obtain ⟨n, hn, hstream⟩ := Option.bind_eq_some_iff.mp hst
  obtain ⟨hmem, hpath, hdir⟩ := mem_of_nodeAt hs hn
  have htree := deleteHostFile_of_stream hn (by rw [hstream]; exact Option.some_ne_none _) hvol
  rw [nodeAt_of_dir hdir] at hn
  by_cases hq : directories q = ['/']
  · by_cases hfile : decPath (filename q) = decPath (filename path)
    · -- the same file: without it, or with one stream less
      have hget : streamAt (deleteHostFile path s) q =
          (n.file.setStream (codeOf path) none).stream (codeOf q) := by
        rw [streamAt, nodeAt_of_dir hq, htree, hfile, ← hpath]
        split
        · next hno => rw [hs.get_removeFile hmem, Option.bind_none, (File.noStream_iff _).mp hno]
        · rw [hs.get_modify, hpath, hn, Option.map_some, if_pos rfl, Option.bind_some]
      have hold : streamAt s q = n.file.stream (codeOf q) := by
        rw [streamAt, nodeAt_of_dir hq, hfile, hn, Option.bind_some]
      rw [hget, hold]
      constructor
      · rintro ⟨-, -, hcode⟩
        rw [hcode, File.stream_setStream]
      · intro hne
        exact File.stream_setStream_of_ne _ (fun hcode => hne ⟨hq, hfile, hcode⟩) _
    · -- another file
      refine ⟨fun hsame => absurd hsame.2.1 hfile, fun _ => ?_⟩
      rw [streamAt, streamAt, nodeAt_of_dir hq, nodeAt_of_dir hq, htree]
      split
      · have hne : decPath (filename q) ≠ n.path := by
          rw [hpath]
          exact hfile
        rw [hs.get_removeFile_of_ne hmem hne]
      · rw [hs.get_modify]
        cases hm : s.tree.get (decPath (filename q)) with
        | none => rfl
        | some m =>
          have hne : m.id ≠ n.id := by
            intro heq
            have hmn := hs.eq_of_id (hs.get_eq_some.mp hm).2 hmem heq
            have hmpath := hs.path_of_get hm
            rw [hmn, hpath] at hmpath
            exact hfile hmpath.symm
          rw [Option.map_some, if_neg hne]
  · refine ⟨fun hsame => absurd hsame.1 hq, fun _ => ?_⟩
    rw [streamAt_of_not_dir hq, streamAt_of_not_dir hq]

/-! ## Events -/

theorem SameStream.streamAt_eq {s : Fs} {p q : Text} (h : SameStream p q)
    (hp : directories p = ['/']) : streamAt s q = streamAt s p := by
  rw [streamAt, streamAt, nodeAt_of_dir h.1, nodeAt_of_dir hp, h.2.1, h.2.2]

theorem dir_of_streamAt {s : Fs} {p : Text} {st : Stream} (h : streamAt s p = some st) :
    directories p = ['/'] := by
  by_contra hdir
  rw [streamAt_of_not_dir hdir] at h
  contradiction

theorem streamAt_importHostFile (h : HostFile) {s : Fs} (hs : s.tree.Indexed) {q : Text}
    {st : Stream} (hst : streamAt s q = some st) :
    streamAt (finalState (importHostFile h s)) q = some st := by
  have hdir := dir_of_streamAt hst
  obtain ⟨n, hn, hstream⟩ := Option.bind_eq_some_iff.mp hst
  rw [nodeAt_of_dir hdir] at hn
  rw [streamAt, nodeAt_of_dir hdir, get_importHostFile h hs hn, Option.bind_some, hstream]

theorem hostPath_newFile {h : HostFile} {internal : Bool} {code : StreamCode} {st : Stream}
    (hst : (newFile h internal).stream code = some st) : st.hostPath = h.path := by
  unfold newFile at hst
  dsimp only at hst
  generalize (splitStreamCode h.filename).2 = own at hst
  by_cases hcode : code = own
  · subst hcode
    rw [File.stream_setStream] at hst
    exact Option.some.inj hst ▸ rfl
  · rw [File.stream_setStream_of_ne _ hcode] at hst
    cases code <;> cases hst

/-- A stream that an import brings has its owner. -/
theorem hostPath_importHostFile {h : HostFile} {s : Fs} (hs : s.tree.Indexed) {q : Text}
    {st : Stream} (hnone : streamAt s q = none)
    (hst : streamAt (finalState (importHostFile h s)) q = some st) : st.hostPath = h.path := by
  have hdir := dir_of_streamAt hst
  obtain ⟨n, hn, hstream⟩ := Option.bind_eq_some_iff.mp hst
  rw [nodeAt_of_dir hdir] at hn
  cases hget : s.tree.get (decPath (filename q)) with
  | none =>
    obtain ⟨-, hfile⟩ := get_importHostFile_new h hs hget hn
    rw [hfile] at hstream
    exact hostPath_newFile hstream
  | some m =>
    rw [get_importHostFile h hs hget] at hn
    rw [streamAt, nodeAt_of_dir hdir, hget, hn, Option.bind_some, hstream] at hnone
    contradiction

/-- What an event must do and must not do to the streams. -/
structure Kept (s : Fs) (e : HostEvent) (t : Fs) : Prop where
  undisturbed : ∀ q st, streamAt s q = some st → st.hostPath ≠ e.path → streamAt t q = some st
  streamGone : ∀ p st, e = .delete p → streamAt s p = some st → st.hostPath = p →
    streamAt t p = none
  /-- the file goes with its last stream -/
  fileGone : ∀ p n st, e = .delete p → nodeAt s p = some n →
    n.file.stream (codeOf p) = some st → st.hostPath = p →
    (∀ code, n.file.stream code ≠ none → code = codeOf p) → nodeAt t p = none

/-- Nobody but its owner deletes or changes a stream. `$VOLUM.INF` is left alone. -/
def ByOwner (s : Fs) : HostEvent → Prop
  | .create _ => True
  | .modify file => ∀ st, streamAt s file.path = some st → st.hostPath ≠ file.path →
      IsVolumeInfo file.path
  | .delete p => ∀ st, streamAt s p = some st → (st.hostPath = p ↔ ¬IsVolumeInfo p)

theorem undisturbed_delete {s : Fs} (hs : s.tree.Indexed) {p : Text}
    (h : ∀ st, streamAt s p = some st → st.hostPath ≠ p → IsVolumeInfo p) {q : Text} {st : Stream}
    (hst : streamAt s q = some st) (hne : st.hostPath ≠ p) :
    streamAt (deleteHostFile p s) q = some st := by
  by_cases hnone : streamAt s p = none ∨ IsVolumeInfo p
  · rwa [deleteHostFile_of_none hnone]
  · obtain ⟨hsome, hvol⟩ := not_or.mp hnone
    obtain ⟨st', hst'⟩ := Option.ne_none_iff_exists'.mp hsome
    rw [(streamAt_deleteHostFile hs hst' hvol q).2, hst]
    intro hsame
    rw [hsame.streamAt_eq (dir_of_streamAt hst'), hst'] at hst
    obtain rfl := Option.some.inj hst
    exact hvol (h _ hst' hne)

theorem kept_iff {s : Fs} (hs : s.tree.Indexed) (e : HostEvent) :
    Kept s e (finalState (consumeEvent s e)) ↔ ByOwner s e := by
  cases e with
  | create file =>
    refine ⟨fun _ => trivial, fun _ => ⟨?_, ?_, ?_⟩⟩
    · intro q st hst _
      exact streamAt_importHostFile file hs hst
    · intro p st he
      cases he
    · intro p n st he
      cases he
  | modify file =>
    have hdel := deleteHostFile_indexed hs file.path
    constructor
    · intro hkept st hst hne
      by_contra hvol
      have hgone := (streamAt_deleteHostFile hs hst hvol file.path).1
        ⟨dir_of_streamAt hst, rfl, rfl⟩
      -- what is there afterwards has come with this import
      exact hne (hostPath_importHostFile hdel hgone (hkept.undisturbed _ st hst hne))
    · intro h
      refine ⟨?_, ?_, ?_⟩
      · intro q st hst hne
        exact streamAt_importHostFile file hdel (undisturbed_delete hs h hst hne)
      · intro p st he
        cases he
      · intro p n st he
        cases he
  | delete p =>
    constructor
    · intro hkept st hst
      constructor
      · intro hown hvol
        have hgone := hkept.streamGone p st rfl hst hown
        rw [consumeEvent, finalState_ok, deleteHostFile_of_none (Or.inr hvol), hst] at hgone
        contradiction
      · intro hvol
        by_contra hne
        have hstays := hkept.undisturbed p st hst hne
        have hgone := (streamAt_deleteHostFile hs hst hvol p).1 ⟨dir_of_streamAt hst, rfl, rfl⟩
        rw [consumeEvent, finalState_ok, hgone] at hstays
        contradiction
    · intro h
      refine ⟨?_, ?_, ?_⟩
      · intro q st hst hne
        exact undisturbed_delete hs
          (fun st hst hne => by_contra fun hvol => hne ((h st hst).2 hvol)) hst hne
      · rintro p' st he hst hown
        obtain rfl := HostEvent.delete.inj he
        exact (streamAt_deleteHostFile hs hst ((h st hst).1 hown) p).1
          ⟨dir_of_streamAt hst, rfl, rfl⟩
      · rintro p' n st he hn hst hown hlast
        obtain rfl := HostEvent.delete.inj he
        have hat : streamAt s p = some st := by rw [streamAt, hn, Option.bind_some, hst]
        have hno : (n.file.setStream (codeOf p) none).NoStream := by
          rw [File.noStream_iff]
          intro code
          by_cases hcode : code = codeOf p
          · rw [hcode, File.stream_setStream]
          · rw [File.stream_setStream_of_ne _ hcode]
            exact by_contra fun hne => hcode (hlast code hne)
        obtain ⟨hmem, hpath, hdir⟩ := mem_of_nodeAt hs hn
        rw [consumeEvent, finalState_ok, nodeAt_of_dir hdir,
          deleteHostFile_of_stream hn (by rw [hst]; exact Option.some_ne_none _)
            ((h st hat).1 hown), if_pos hno, ← hpath, hs.get_removeFile hmem]

theorem consumeEvent_indexed (s : Fs) (e : HostEvent) (hs : s.tree.Indexed) :
    (finalState (consumeEvent s e)).tree.Indexed := by
  cases e with
  | create file => exact importHostFile_indexed file hs
  | modify file => exact importHostFile_indexed file (deleteHostFile_indexed hs _)
  | delete p => exact deleteHostFile_indexed hs p

/-- Over a sequence of events. -/
theorem history_kept_iff {s : Fs} (hs : s.tree.Indexed) (es : List HostEvent) :
    (∀ c ∈ history consumeEvent s es, Kept c.before c.event c.after) ↔
      ∀ c ∈ history consumeEvent s es, ByOwner c.before c.event := by
  refine forall₂_congr fun c hc => ?_
  obtain ⟨hbefore, hafter⟩ := history_before consumeEvent_indexed hs hc
  rw [hafter]
  exact kept_iff hbefore c.event

end QUniBone.RT11
