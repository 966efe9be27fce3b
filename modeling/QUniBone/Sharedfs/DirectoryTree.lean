import QUniBone.Sharedfs.Names
import Mathlib.Data.List.Perm.Lattice
import Mathlib.Logic.Function.Basic

/-!
# Directory tree

`directory_base_c` with its subdirectories, and `file_by_path_map_c`. A file is known by a number,
which is its address in memory; `parentdir` is the place in the tree.

* `Directory.find?`, `Directory.update`, `Directory.unlink`: the tree that the pointers make.
* `Registry.delete`, `Directory.clear`: the destructors, each of which forgets a path.
* `Directory.find?_split`, `Directory.unlink_perm`: what the operations do to the list of nodes.
* `Directory.clear_deletes`: what the destructors do to the map.
-/

namespace QUniBone.Sharedfs

/-- `file_base_c` -/
structure FileBase where
  id : ℕ
  path : Text
  deriving DecidableEq

/-- `directory_base_c` -/
inductive Directory
  | mk (self : FileBase) (subdirectories : List Directory) (files : List FileBase)

/-! ## Paths of files -/

/-- `file_by_path_map_c` -/
abbrev FileByPathMap := Text → Option ℕ

namespace FileByPathMap

def forget (m : FileByPathMap) (f : FileBase) : FileByPathMap := Function.update m f.path none

/-- `std::map::insert` keeps an entry that is there. -/
def insert (m : FileByPathMap) (f : FileBase) : FileByPathMap :=
  if (m f.path).isSome then m else Function.update m f.path (some f.id)

def remember (m : FileByPathMap) (f : FileBase) : FileByPathMap :=
  (if m f.path ≠ none then m.forget f else m).insert f

theorem remember_eq (m : FileByPathMap) (f : FileBase) :
    m.remember f = Function.update m f.path (some f.id) := by
  unfold remember
  split_ifs with h
  · -- the old entry is gone before the insertion
    simp [insert, forget]
  · have hnone : m f.path = none := not_not.mp h
    simp [insert, hnone]

end FileByPathMap

/-- What the destructors change -/
structure Registry where
  fileByPath : FileByPathMap
  /-- the files that are deleted -/
  deleted : List ℕ

/-- `~file_base_c()` -/
def Registry.delete (r : Registry) (f : FileBase) : Registry where
  fileByPath := r.fileByPath.forget f
  deleted := f.id :: r.deleted

/-! ## The tree -/

namespace Directory

def self : Directory → FileBase
  | mk self _ _ => self

def subdirectories : Directory → List Directory
  | mk _ subdirectories _ => subdirectories

def files : Directory → List FileBase
  | mk _ _ files => files

mutual
/-- All files and directories, the directory itself first -/
def nodes : Directory → List FileBase
  | mk self subdirectories files => self :: (nodesOf subdirectories ++ files)
def nodesOf : List Directory → List FileBase
  | [] => []
  | d :: ds => d.nodes ++ nodesOf ds
end

/-- All files and directories in a directory -/
def contents (d : Directory) : List FileBase := nodesOf d.subdirectories ++ d.files

mutual
/-- The directory at an address -/
def find? (id : ℕ) : Directory → Option Directory
  | mk self subdirectories files =>
    if self.id = id then some (mk self subdirectories files) else findIn? id subdirectories
def findIn? (id : ℕ) : List Directory → Option Directory
  | [] => none
  | d :: ds => (d.find? id).or (findIn? id ds)
end

mutual
/-- A change of the directory at an address -/
def update (id : ℕ) (g : Directory → Directory) : Directory → Directory
  | mk self subdirectories files =>
    if self.id = id then g (mk self subdirectories files)
    else mk self (updateIn id g subdirectories) files
def updateIn (id : ℕ) (g : Directory → Directory) : List Directory → List Directory
  | [] => []
  | d :: ds => d.update id g :: updateIn id g ds
end

mutual
/-- `parentdir->subdirectories.erase()` for the directory at an address -/
def unlink (id : ℕ) : Directory → Directory
  | mk self subdirectories files => mk self (unlinkIn id subdirectories) files
def unlinkIn (id : ℕ) : List Directory → List Directory
  | [] => []
  | d :: ds => if d.self.id = id then ds else d.unlink id :: unlinkIn id ds
end

mutual
/-- `clear()`: the subdirectories are deleted before the files. -/
def clear : Directory → Registry → Registry
  | mk _ subdirectories files, r => files.foldl Registry.delete (deleteAll subdirectories r)
/-- `delete` of each: `~directory_base_c()` calls `clear()` before `~file_base_c()`. -/
def deleteAll : List Directory → Registry → Registry
  | [], r => r
  | d :: ds, r => deleteAll ds ((d.clear r).delete d.self)
end

/-- A directory with the vectors cleared -/
def emptied (d : Directory) : Directory := mk d.self [] []

def pushFile (d : Directory) (f : FileBase) : Directory :=
  mk d.self d.subdirectories (d.files ++ [f])

def pushDirectory (d sub : Directory) : Directory :=
  mk d.self (d.subdirectories ++ [sub]) d.files

/-- `files.erase()` of the first pointer that is equal -/
def eraseFile (d : Directory) (id : ℕ) : Directory :=
  mk d.self d.subdirectories (d.files.eraseP (·.id = id))

@[simp] theorem self_emptied (d : Directory) : d.emptied.self = d.self := rfl

@[simp] theorem contents_emptied (d : Directory) : d.emptied.contents = [] := by
  simp [contents, emptied, subdirectories, files, nodesOf]

theorem nodes_eq (d : Directory) : d.nodes = d.self :: d.contents := by
  cases d
  simp [nodes, contents, self, subdirectories, files]

theorem nodesOf_append (ds es : List Directory) :
    nodesOf (ds ++ es) = nodesOf ds ++ nodesOf es := by
  induction ds with
  | nil => simp [nodesOf]
  | cons d ds ih => simp [nodesOf, ih]

/-- Nodes that stand between others are moved to the front. -/
theorem perm_around {n : FileBase} {ns ms rest files : List FileBase} (h : ns.Perm (ms ++ rest)) :
    (n :: (ns ++ files)).Perm (ms ++ n :: (rest ++ files)) := by
  refine ((h.append_right files).cons n).trans ?_
  rw [List.append_assoc]
  exact List.perm_middle.symm

/-! ## Where a directory is -/

theorem find?_self (d : Directory) : d.find? d.self.id = some d := by
  cases d
  simp [find?, self]

mutual
theorem find?_mem {id : ℕ} {e : Directory} : ∀ {d : Directory}, d.find? id = some e →
    e.self.id = id ∧ e.self ∈ d.nodes
  | mk self subdirectories files, h => by
    rw [find?] at h
    split at h
    case isTrue hid =>
      obtain rfl := Option.some.inj h
      exact ⟨hid, by simp [nodes, Directory.self]⟩
    case isFalse =>
      have hin := findIn?_mem h
      exact ⟨hin.1, by simp [nodes, hin.2]⟩
theorem findIn?_mem {id : ℕ} {e : Directory} : ∀ {ds : List Directory}, findIn? id ds = some e →
    e.self.id = id ∧ e.self ∈ nodesOf ds
  | [], h => by simp [findIn?] at h
  | d :: ds, h => by
    rw [findIn?, Option.or_eq_some_iff] at h
    rw [nodesOf, List.mem_append]
    rcases h with hhead | ⟨-, htail⟩
    · exact ⟨(find?_mem hhead).1, .inl (find?_mem hhead).2⟩
    · exact ⟨(findIn?_mem htail).1, .inr (findIn?_mem htail).2⟩
end

/-- An address that is not in use has no directory. -/
theorem findIn?_eq_none {id : ℕ} {ds : List Directory} (h : id ∉ (nodesOf ds).map (·.id)) :
    findIn? id ds = none := by
  by_contra hne
  obtain ⟨e, he⟩ := Option.ne_none_iff_exists'.mp hne
  have hmem := findIn?_mem he
  exact h (hmem.1 ▸ List.mem_map_of_mem hmem.2)

mutual
theorem update_of_find? {id : ℕ} (g : Directory → Directory) : ∀ {d : Directory},
    d.find? id = none → d.update id g = d
  | mk self subdirectories files, h => by
    rw [find?] at h
    split at h
    case isTrue => contradiction
    case isFalse hid => rw [update, if_neg hid, updateIn_of_findIn? g h]
theorem updateIn_of_findIn? {id : ℕ} (g : Directory → Directory) : ∀ {ds : List Directory},
    findIn? id ds = none → updateIn id g ds = ds
  | [], _ => by rw [updateIn]
  | d :: ds, h => by
    rw [findIn?, Option.or_eq_none_iff] at h
    rw [updateIn, update_of_find? g h.1, updateIn_of_findIn? g h.2]
end

mutual
theorem unlink_of_find? {id : ℕ} : ∀ {d : Directory}, d.find? id = none → d.unlink id = d
  | mk self subdirectories files, h => by
    rw [find?] at h
    split at h
    case isTrue => contradiction
    case isFalse hid => rw [unlink, unlinkIn_of_findIn? h]
theorem unlinkIn_of_findIn? {id : ℕ} : ∀ {ds : List Directory}, findIn? id ds = none →
    unlinkIn id ds = ds
  | [], _ => by rw [unlinkIn]
  | d :: ds, h => by
    rw [findIn?, Option.or_eq_none_iff] at h
    have hid : d.self.id ≠ id := by
      intro heq
      rw [← heq, find?_self] at h
      exact absurd h.1 (Option.some_ne_none _)
    rw [unlinkIn, if_neg hid, unlink_of_find? h.1, unlinkIn_of_findIn? h.2]
end

/-- No two files have one address. -/
def Distinct (ns : List FileBase) : Prop := (ns.map (·.id)).Nodup

theorem Distinct.eq_of_id {ns : List FileBase} (h : Distinct ns) {n m : FileBase} (hn : n ∈ ns)
    (hm : m ∈ ns) (hid : n.id = m.id) : n = m :=
  List.inj_on_of_nodup_map h hn hm hid

theorem Distinct.perm {ns ms : List FileBase} (h : Distinct ns) (hp : ns.Perm ms) : Distinct ms :=
  (hp.map _).nodup_iff.mp h

theorem Distinct.of_append {ns ms : List FileBase} (h : Distinct (ns ++ ms)) :
    Distinct ns ∧ Distinct ms ∧ ∀ n ∈ ns, ∀ m ∈ ms, n.id ≠ m.id := by
  rw [Distinct, List.map_append, List.nodup_append] at h
  refine ⟨h.1, h.2.1, fun n hn m hm => ?_⟩
  exact h.2.2 _ (List.mem_map_of_mem hn) _ (List.mem_map_of_mem hm)

theorem Distinct.findIn?_tail {ns : List FileBase} {ds : List Directory}
    (h : Distinct (ns ++ nodesOf ds)) {n : FileBase} (hn : n ∈ ns) : findIn? n.id ds = none := by
  refine findIn?_eq_none fun hmem => ?_
  obtain ⟨m, hm, hid⟩ := List.mem_map.mp hmem
  exact h.of_append.2.2 n hn m hm hid.symm

/-! ## What a change does to the nodes -/

mutual
/-- The nodes below a directory can be told from the rest, which a change leaves alone. -/
theorem find?_split {id : ℕ} {e : Directory} : ∀ {d : Directory}, Distinct d.nodes →
    d.find? id = some e →
    ∃ rest, d.nodes.Perm (e.nodes ++ rest) ∧
      ∀ g, (d.update id g).nodes.Perm ((g e).nodes ++ rest)
  | mk self subdirectories files, hd, h => by
    rw [find?] at h
    split at h
    case isTrue hid =>
      obtain rfl := Option.some.inj h
      refine ⟨[], by simp, fun g => ?_⟩
      rw [update, if_pos hid, List.append_nil]
    case isFalse hid =>
      rw [nodes] at hd
      have hsub : Distinct (nodesOf subdirectories) :=
        (Distinct.of_append (List.nodup_cons.mp hd).2).1
      obtain ⟨rest, hnodes, hupdate⟩ := findIn?_split hsub h
      refine ⟨self :: (rest ++ files), ?_, fun g => ?_⟩
      · rw [nodes]
        exact perm_around hnodes
      · rw [update, if_neg hid, nodes]
        exact perm_around (hupdate g)
theorem findIn?_split {id : ℕ} {e : Directory} : ∀ {ds : List Directory}, Distinct (nodesOf ds) →
    findIn? id ds = some e →
    ∃ rest, (nodesOf ds).Perm (e.nodes ++ rest) ∧
      ∀ g, (nodesOf (updateIn id g ds)).Perm ((g e).nodes ++ rest)
  | [], _, h => by simp [findIn?] at h
  | d :: ds, hd, h => by
    rw [nodesOf] at hd
    rw [findIn?, Option.or_eq_some_iff] at h
    rcases h with hhead | ⟨hhead, htail⟩
    · -- the address is in the first directory, so it is in no other
      obtain ⟨rest, hnodes, hupdate⟩ := find?_split hd.of_append.1 hhead
      have hmem := find?_mem hhead
      have hnone : findIn? id ds = none := hmem.1 ▸ hd.findIn?_tail hmem.2
      refine ⟨rest ++ nodesOf ds, ?_, fun g => ?_⟩
      · rw [nodesOf, ← List.append_assoc]
        exact hnodes.append_right _
      · rw [updateIn, updateIn_of_findIn? g hnone, nodesOf, ← List.append_assoc]
        exact (hupdate g).append_right _
    · obtain ⟨rest, hnodes, hupdate⟩ := findIn?_split hd.of_append.2.1 htail
      refine ⟨d.nodes ++ rest, ?_, fun g => ?_⟩
      · rw [nodesOf]
        exact (hnodes.append_left _).trans (List.perm_append_comm_assoc ..)
      · rw [updateIn, update_of_find? g hhead, nodesOf]
        exact ((hupdate g).append_left _).trans (List.perm_append_comm_assoc ..)
end

mutual
theorem unlink_perm {id : ℕ} {e : Directory} : ∀ {d : Directory}, Distinct d.nodes →
    d.find? id = some e → d.self.id ≠ id → d.nodes.Perm (e.nodes ++ (d.unlink id).nodes)
  | mk self subdirectories files, hd, h, hne => by
    rw [find?, if_neg (show self.id ≠ id from hne)] at h
    rw [nodes] at hd
    rw [nodes, unlink, nodes]
    exact perm_around (unlinkIn_perm (Distinct.of_append (List.nodup_cons.mp hd).2).1 h)
theorem unlinkIn_perm {id : ℕ} {e : Directory} : ∀ {ds : List Directory}, Distinct (nodesOf ds) →
    findIn? id ds = some e → (nodesOf ds).Perm (e.nodes ++ nodesOf (unlinkIn id ds))
  | [], _, h => by simp [findIn?] at h
  | d :: ds, hd, h => by
    rw [nodesOf] at hd
    rw [findIn?, Option.or_eq_some_iff] at h
    rw [nodesOf, unlinkIn]
    split_ifs with hid
    · -- the first directory is the one
      have hfind : d.find? id = some d := hid ▸ d.find?_self
      rcases h with hhead | ⟨hhead, -⟩
      · obtain rfl := Option.some.inj (hfind.symm.trans hhead)
        exact .refl _
      · exact absurd (hfind.symm.trans hhead) (Option.some_ne_none _)
    · rw [nodesOf]
      rcases h with hhead | ⟨hhead, htail⟩
      · have hmem := find?_mem hhead
        have hnone : findIn? id ds = none := hmem.1 ▸ hd.findIn?_tail hmem.2
        rw [unlinkIn_of_findIn? hnone, ← List.append_assoc]
        exact (unlink_perm hd.of_append.1 hhead hid).append_right _
      · rw [unlink_of_find? hhead]
        exact ((unlinkIn_perm hd.of_append.2.1 htail).append_left _).trans
          (List.perm_append_comm_assoc ..)
end

theorem pushFile_perm (f : FileBase) (d : Directory) :
    (d.pushFile f).nodes.Perm (f :: d.nodes) := by
  have hcontents : (d.pushFile f).contents = d.contents ++ [f] := (List.append_assoc ..).symm
  rw [nodes_eq, nodes_eq, hcontents]
  exact ((List.perm_append_singleton f _).cons _).trans (.swap ..)

theorem pushDirectory_perm (f : FileBase) (d : Directory) :
    (d.pushDirectory (mk f [] [])).nodes.Perm (f :: d.nodes) := by
  have hcontents : (d.pushDirectory (mk f [] [])).contents.Perm (f :: d.contents) := by
    show (nodesOf (d.subdirectories ++ [mk f [] []]) ++ d.files).Perm _
    rw [nodesOf_append, List.append_assoc]
    exact List.perm_middle
  rw [nodes_eq, nodes_eq]
  exact (hcontents.cons _).trans (.swap ..)

theorem find?_eraseP_perm {p : FileBase → Bool} {f : FileBase} {fs : List FileBase}
    (h : fs.find? p = some f) : fs.Perm (f :: fs.eraseP p) := by
  induction fs with
  | nil => simp at h
  | cons g fs ih =>
    by_cases hg : p g = true
    · rw [List.find?_cons_of_pos hg] at h
      obtain rfl := Option.some.inj h
      rw [List.eraseP_cons_of_pos hg]
    · rw [List.find?_cons_of_neg hg] at h
      rw [List.eraseP_cons_of_neg hg]
      exact ((ih h).cons g).trans (.swap ..)

theorem eraseFile_perm {id : ℕ} {f : FileBase} {d : Directory}
    (h : d.files.find? (·.id = id) = some f) : d.nodes.Perm (f :: (d.eraseFile id).nodes) := by
  rw [nodes_eq, nodes_eq]
  have hcontents : d.contents.Perm (f :: (d.eraseFile id).contents) :=
    ((find?_eraseP_perm h).append_left _).trans List.perm_middle
  exact (hcontents.cons _).trans (.swap ..)

theorem emptied_perm (d : Directory) : d.nodes.Perm (d.contents ++ d.emptied.nodes) := by
  rw [nodes_eq, nodes_eq d.emptied, contents_emptied]
  exact (List.perm_append_singleton ..).symm

/-- What is added to a directory is added to the tree. -/
theorem update_perm_of_added {id : ℕ} {d e : Directory} (hd : Distinct d.nodes)
    (h : d.find? id = some e) {g : Directory → Directory} {f : FileBase}
    (hg : (g e).nodes.Perm (f :: e.nodes)) : (d.update id g).nodes.Perm (f :: d.nodes) := by
  obtain ⟨rest, hnodes, hupdate⟩ := find?_split hd h
  calc (d.update id g).nodes.Perm ((g e).nodes ++ rest) := hupdate g
    List.Perm _ (f :: (e.nodes ++ rest)) := hg.append_right _
    List.Perm _ (f :: d.nodes) := hnodes.symm.cons f

/-- What is taken from a directory is taken from the tree. -/
theorem update_perm_of_removed {id : ℕ} {d e : Directory} (hd : Distinct d.nodes)
    (h : d.find? id = some e) {g : Directory → Directory} {ns : List FileBase}
    (hg : e.nodes.Perm (ns ++ (g e).nodes)) : d.nodes.Perm (ns ++ (d.update id g).nodes) := by
  obtain ⟨rest, hnodes, hupdate⟩ := find?_split hd h
  calc d.nodes.Perm (e.nodes ++ rest) := hnodes
    List.Perm _ (ns ++ (g e).nodes ++ rest) := hg.append_right _
    _ = ns ++ ((g e).nodes ++ rest) := List.append_assoc ..
    List.Perm _ (ns ++ (d.update id g).nodes) := (hupdate g).symm.append_left _

end Directory

/-! ## What the destructors do -/

/-- All of the files are deleted, and all of their paths are forgotten, whatever file an entry
named. -/
structure Deletes (ns : List FileBase) (r r' : Registry) : Prop where
  fileByPath : ∀ p, r'.fileByPath p = if p ∈ ns.map (·.path) then none else r.fileByPath p
  deleted : ∀ id, id ∈ r'.deleted ↔ id ∈ ns.map (·.id) ∨ id ∈ r.deleted

namespace Deletes

theorem nil (r : Registry) : Deletes [] r r where
  fileByPath := by simp
  deleted := by simp

theorem delete (r : Registry) (f : FileBase) : Deletes [f] r (r.delete f) where
  fileByPath p := by
    simp [Registry.delete, FileByPathMap.forget, Function.update_apply]
  deleted := by simp [Registry.delete]

theorem append {ns ms : List FileBase} {r r' r'' : Registry} (h : Deletes ns r r')
    (h' : Deletes ms r' r'') : Deletes (ns ++ ms) r r'' where
  fileByPath p := by
    rw [h'.fileByPath, h.fileByPath, List.map_append]
    by_cases hn : p ∈ ns.map (·.path) <;> by_cases hm : p ∈ ms.map (·.path) <;> simp [hn, hm]
  deleted id := by
    rw [h'.deleted, h.deleted, List.map_append, List.mem_append]
    tauto

theorem perm {ns ms : List FileBase} {r r' : Registry} (h : Deletes ns r r') (hp : ns.Perm ms) :
    Deletes ms r r' where
  fileByPath p := by
    rw [h.fileByPath]
    simp only [(hp.map (·.path)).mem_iff]
  deleted id := by rw [h.deleted, (hp.map (·.id)).mem_iff]

theorem foldl (ns : List FileBase) (r : Registry) :
    Deletes ns r (ns.foldl Registry.delete r) := by
  induction ns generalizing r with
  | nil => exact nil r
  | cons f ns ih => exact (delete r f).append (ih _)

end Deletes

namespace Directory

mutual
theorem clear_deletes : ∀ (d : Directory) (r : Registry), Deletes d.contents r (d.clear r)
  | mk self subdirectories files, r => by
    rw [clear]
    exact (deleteAll_deletes subdirectories r).append (.foldl files _)
theorem deleteAll_deletes : ∀ (ds : List Directory) (r : Registry),
    Deletes (nodesOf ds) r (deleteAll ds r)
  | [], r => by
    rw [deleteAll, nodesOf]
    exact .nil r
  | d :: ds, r => by
    rw [deleteAll, nodesOf, nodes_eq]
    -- the contents are deleted before the directory
    have hd := ((clear_deletes d r).append (.delete _ d.self)).perm
      (List.perm_append_singleton ..)
    exact hd.append (deleteAll_deletes ds _)
end

theorem delete_deletes (d : Directory) (r : Registry) :
    Deletes d.nodes r ((d.clear r).delete d.self) := by
  rw [nodes_eq]
  exact ((d.clear_deletes r).append (.delete _ _)).perm (List.perm_append_singleton ..)

end Directory

end QUniBone.Sharedfs
