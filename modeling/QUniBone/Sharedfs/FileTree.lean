import QUniBone.Sharedfs.Names
import Mathlib.Data.List.Perm.Lattice
import Mathlib.Logic.Function.Basic

/-!
# File tree

`directory_base_c` and `file_by_path_map_c` for a file system without subdirectories: the files of
the root directory, and the map from paths to files. A file is known by a number, which is its
address in memory.

* `FileTree.addFile`, `FileTree.removeFile`, `FileTree.modify`: the operations.
* `FileTree.get`: the file at a path.
* `FileTree.Indexed`: the map and the directory agree.
-/

namespace QUniBone.Sharedfs

/-- A file in the directory, with the path it was added under. -/
structure Node (φ : Type) where
  id : ℕ
  path : Text
  file : φ

structure FileTree (φ : Type) where
  files : List (Node φ)
  fileByPath : Text → Option ℕ
  /-- no file has this number or a higher one -/
  next : ℕ

namespace FileTree

variable {φ : Type}

/-- After `clear_rootdir()` -/
def empty : FileTree φ where
  files := []
  fileByPath _ := none
  next := 0

/-- `add_file()`: `remember()` replaces an entry of the same path. -/
def addFile (t : FileTree φ) (path : Text) (f : φ) : FileTree φ where
  files := t.files ++ [⟨t.next, path, f⟩]
  fileByPath := Function.update t.fileByPath path (some t.next)
  next := t.next + 1

/-- `remove_file()`: the destructor forgets the path. -/
def removeFile (t : FileTree φ) (n : Node φ) : FileTree φ where
  files := t.files.filter (·.id ≠ n.id)
  fileByPath := Function.update t.fileByPath n.path none
  next := t.next

/-- A change inside a file -/
def modify (t : FileTree φ) (id : ℕ) (g : φ → φ) : FileTree φ where
  files := t.files.map fun n => if n.id = id then { n with file := g n.file } else n
  fileByPath := t.fileByPath
  next := t.next

/-- `file_by_path.get()` -/
def get (t : FileTree φ) (path : Text) : Option (Node φ) :=
  (t.fileByPath path).bind fun id => t.files.find? (·.id = id)

/-- Every entry of the map is a file of this path. Of files with one path only the one added last
has an entry. -/
structure Indexed (t : FileTree φ) : Prop where
  lt_next : ∀ n ∈ t.files, n.id < t.next
  nodup : (t.files.map (·.id)).Nodup
  entry : ∀ path id, t.fileByPath path = some id → ∃ n ∈ t.files, n.id = id ∧ n.path = path

theorem empty_indexed : (empty : FileTree φ).Indexed := by
  constructor <;> simp [empty]

theorem find?_id {files : List (Node φ)} (hnodup : (files.map (·.id)).Nodup) {n : Node φ}
    (hn : n ∈ files) : files.find? (·.id = n.id) = some n := by
  induction files with
  | nil => simp at hn
  | cons m files ih =>
    simp only [List.map_cons, List.nodup_cons, List.mem_map, not_exists, not_and] at hnodup
    rcases List.mem_cons.mp hn with rfl | hmem
    · simp
    · rw [List.find?_cons_of_neg, ih hnodup.2 hmem]
      simpa using fun heq : m.id = n.id => hnodup.1 n hmem heq.symm

theorem Indexed.eq_of_id {t : FileTree φ} (h : t.Indexed) {n m : Node φ} (hn : n ∈ t.files)
    (hm : m ∈ t.files) (hid : n.id = m.id) : n = m := by
  have hfind := find?_id h.nodup hn
  rw [hid, find?_id h.nodup hm] at hfind
  exact (Option.some.inj hfind).symm

theorem Indexed.get_eq_some {t : FileTree φ} (h : t.Indexed) {path : Text} {n : Node φ} :
    t.get path = some n ↔ t.fileByPath path = some n.id ∧ n ∈ t.files := by
  constructor
  · intro hget
    obtain ⟨id, hid, hfind⟩ := Option.bind_eq_some_iff.mp hget
    obtain rfl : n.id = id := by simpa using List.find?_some hfind
    exact ⟨hid, List.mem_of_find?_eq_some hfind⟩
  · rintro ⟨hid, hmem⟩
    rw [get, hid, Option.bind_some, find?_id h.nodup hmem]

theorem Indexed.path_of_get {t : FileTree φ} (h : t.Indexed) {path : Text} {n : Node φ}
    (hget : t.get path = some n) : n.path = path := by
  obtain ⟨hid, hmem⟩ := h.get_eq_some.mp hget
  obtain ⟨m, hm, hmid, hpath⟩ := h.entry _ _ hid
  exact h.eq_of_id hm hmem hmid ▸ hpath

theorem Indexed.get_eq_none {t : FileTree φ} (h : t.Indexed) {path : Text} :
    t.get path = none ↔ t.fileByPath path = none := by
  constructor
  · intro hget
    by_contra hne
    obtain ⟨id, hid⟩ := Option.ne_none_iff_exists'.mp hne
    obtain ⟨n, hmem, rfl, -⟩ := h.entry _ _ hid
    rw [h.get_eq_some.mpr ⟨hid, hmem⟩] at hget
    contradiction
  · intro hid
    rw [get, hid, Option.bind_none]

/-! ## Adding -/

theorem fileByPath_addFile_of_ne {t : FileTree φ} {path p : Text} (hp : p ≠ path) (f : φ) :
    (t.addFile path f).fileByPath p = t.fileByPath p := Function.update_of_ne hp ..

theorem Indexed.addFile {t : FileTree φ} (h : t.Indexed) (path : Text) (f : φ) :
    (t.addFile path f).Indexed where
  lt_next n hn := by
    rcases List.mem_append.mp hn with hold | hnew
    · exact Nat.lt_succ_of_lt (h.lt_next n hold)
    · rw [List.mem_singleton.mp hnew]
      exact Nat.lt_succ_self _
  nodup := by
    rw [FileTree.addFile, List.map_append, List.nodup_append]
    refine ⟨h.nodup, by simp, ?_⟩
    intro a ha b hb
    obtain ⟨n, hn, rfl⟩ := List.mem_map.mp ha
    obtain rfl : b = t.next := by simpa using hb
    exact (h.lt_next n hn).ne
  entry p id hid := by
    by_cases hp : p = path
    · subst hp
      obtain rfl : t.next = id := by simpa [FileTree.addFile] using hid
      exact ⟨⟨t.next, p, f⟩, by simp [FileTree.addFile], rfl, rfl⟩
    · rw [fileByPath_addFile_of_ne hp] at hid
      obtain ⟨n, hn, hnid, hnp⟩ := h.entry p id hid
      exact ⟨n, List.mem_append_left _ hn, hnid, hnp⟩

theorem Indexed.get_addFile {t : FileTree φ} (h : t.Indexed) (path : Text) (f : φ) :
    (t.addFile path f).get path = some ⟨t.next, path, f⟩ := by
  rw [(h.addFile path f).get_eq_some]
  exact ⟨Function.update_self .., by simp [FileTree.addFile]⟩

theorem Indexed.get_addFile_of_ne {t : FileTree φ} (h : t.Indexed) {path p : Text} (hp : p ≠ path)
    (f : φ) : (t.addFile path f).get p = t.get p := by
  have hmap := fileByPath_addFile_of_ne (t := t) hp f
  cases hget : t.get p with
  | none => rw [(h.addFile path f).get_eq_none, hmap, ← h.get_eq_none, hget]
  | some n =>
    obtain ⟨hid, hmem⟩ := h.get_eq_some.mp hget
    rw [(h.addFile path f).get_eq_some, hmap]
    exact ⟨hid, List.mem_append_left _ hmem⟩

/-! ## Removing -/

theorem fileByPath_removeFile_of_ne {t : FileTree φ} {n : Node φ} {p : Text} (hp : p ≠ n.path) :
    (t.removeFile n).fileByPath p = t.fileByPath p := Function.update_of_ne hp ..

theorem Indexed.removeFile {t : FileTree φ} (h : t.Indexed) {n : Node φ} (hn : n ∈ t.files) :
    (t.removeFile n).Indexed where
  lt_next m hm := h.lt_next m (List.mem_of_mem_filter hm)
  nodup := h.nodup.sublist (List.filter_sublist.map _)
  entry p id hid := by
    by_cases hp : p = n.path
    · subst hp
      simp [FileTree.removeFile] at hid
    · rw [fileByPath_removeFile_of_ne hp] at hid
      obtain ⟨m, hm, hmid, hmp⟩ := h.entry p id hid
      refine ⟨m, List.mem_filter.mpr ⟨hm, ?_⟩, hmid, hmp⟩
      have hne : m.id ≠ n.id := fun heq => hp (h.eq_of_id hm hn heq ▸ hmp.symm)
      simpa using hne

theorem Indexed.get_removeFile {t : FileTree φ} (h : t.Indexed) {n : Node φ} (hn : n ∈ t.files) :
    (t.removeFile n).get n.path = none := by
  rw [(h.removeFile hn).get_eq_none]
  exact Function.update_self ..

theorem Indexed.get_removeFile_of_ne {t : FileTree φ} (h : t.Indexed) {n : Node φ} (hn : n ∈ t.files)
    {p : Text} (hp : p ≠ n.path) : (t.removeFile n).get p = t.get p := by
  have hmap := fileByPath_removeFile_of_ne (t := t) hp
  cases hget : t.get p with
  | none => rw [(h.removeFile hn).get_eq_none, hmap, ← h.get_eq_none, hget]
  | some m =>
    obtain ⟨hid, hmem⟩ := h.get_eq_some.mp hget
    obtain ⟨k, hk, hkid, hkp⟩ := (h.removeFile hn).entry p m.id (hmap.trans hid)
    obtain rfl := h.eq_of_id (List.mem_of_mem_filter hk) hmem hkid
    rw [(h.removeFile hn).get_eq_some, hmap]
    exact ⟨hid, hk⟩

/-! ## Changing a file -/

theorem Indexed.modify {t : FileTree φ} (h : t.Indexed) (id : ℕ) (g : φ → φ) :
    (t.modify id g).Indexed where
  lt_next n hn := by
    obtain ⟨m, hm, rfl⟩ := List.mem_map.mp hn
    have hlt := h.lt_next m hm
    split <;> exact hlt
  nodup := by
    have hids : (t.modify id g).files.map (·.id) = t.files.map (·.id) := by
      rw [FileTree.modify, List.map_map]
      refine List.map_congr_left fun n _ => ?_
      show (if n.id = id then { n with file := g n.file } else n).id = n.id
      split <;> rfl
    rw [hids]
    exact h.nodup
  entry p i hi := by
    obtain ⟨n, hn, rfl, hnp⟩ := h.entry p i hi
    refine ⟨_, List.mem_map_of_mem hn, ?_, ?_⟩
    · split <;> rfl
    · rw [← hnp]
      split <;> rfl

theorem Indexed.get_modify {t : FileTree φ} (h : t.Indexed) (id : ℕ) (g : φ → φ) (p : Text) :
    (t.modify id g).get p =
      (t.get p).map fun n => if n.id = id then { n with file := g n.file } else n := by
  cases hget : t.get p with
  | none => exact (h.modify id g).get_eq_none.mpr (h.get_eq_none.mp hget)
  | some n =>
    obtain ⟨hid, hmem⟩ := h.get_eq_some.mp hget
    rw [Option.map_some, (h.modify id g).get_eq_some]
    refine ⟨?_, List.mem_map_of_mem hmem⟩
    rw [FileTree.modify, hid]
    split <;> rfl

end FileTree

end QUniBone.Sharedfs
