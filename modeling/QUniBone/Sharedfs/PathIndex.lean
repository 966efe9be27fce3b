import QUniBone.Sharedfs.DirectoryTree
import QUniBone.Sharedfs.FileTree
import QUniBone.Lib.Transition

/-!
# Path index

`filesystem_base_c`: `add_file`, `remove_file`, `add_directory`, `remove_directory`, `clear` and
`clear_rootdir` on the tree of directories, and `file_by_path`.

* `Op`, `step`: the code. `start` is the state after the constructor.
* `Agree`: a lookup finds a file of the tree if there is one with the path, and no deleted file.
* `Op.Careful`: every file that has the path of a deleted file is deleted too.
* `Change`, `step_change`: what a step can do.
* `step_agree_iff`, `lookup_exact`: one step, and every run.
* `Mirrors`: a `FileTree` is the file system of a root without subdirectories.
-/

namespace QUniBone.Sharedfs

open Transition

/-! ## Model -/

/-- The pointer `rootdir`. `remove_directory` leaves it as it is when it deletes the root. -/
inductive Rootdir
  | nullptr
  | dangling
  | tree (root : Directory)

def Rootdir.nodes : Rootdir → List FileBase
  | .tree root => root.nodes
  | _ => []

def Rootdir.find? (id : ℕ) : Rootdir → Option Directory
  | .tree root => root.find? id
  | _ => none

/-- The pointer after `remove_directory`: only a directory with a parent is taken from a vector. -/
def Rootdir.unlink (root : Directory) (olddir : ℕ) : Rootdir :=
  if root.self.id = olddir then .dangling else .tree (root.unlink olddir)

/-- `filesystem_base_c` -/
structure FileSystem extends Registry where
  rootdir : Rootdir
  /-- no file has this address or a higher one -/
  next : ℕ
  changed : Bool

/-- A call. Of a new file it has the path that `get_filepath` returns. -/
inductive Op
  | addFile (dir : ℕ) (path : Text)
  | removeFile (dir oldfile : ℕ)
  | addDirectory (parentdir : Option ℕ) (path : Text)
  | removeDirectory (olddir : ℕ)
  | clear (dir : ℕ)
  | clearRootdir

namespace FileSystem

/-- `filesystem_base_c()` -/
def start : FileSystem where
  fileByPath _ := none
  deleted := []
  rootdir := .nullptr
  next := 0
  changed := false

/-- The files and directories of the tree -/
def nodes (s : FileSystem) : List FileBase := s.rootdir.nodes

/-- `file_by_path.get()` -/
def get (s : FileSystem) (path : Text) : Option ℕ := s.fileByPath path

/-- `file_by_path.remember()` of a file that was allocated for the call -/
def remember (s : FileSystem) (f : FileBase) (rootdir : Rootdir) : FileSystem :=
  { s with
    fileByPath := s.fileByPath.remember f
    rootdir := rootdir
    next := s.next + 1
    changed := true }

/-- After the destructors -/
def after (s : FileSystem) (r : Registry) (rootdir : Rootdir) : FileSystem :=
  { s with toRegistry := r, rootdir := rootdir, changed := true }

def addFile (s : FileSystem) (dir : ℕ) (path : Text) : Option FileSystem :=
  match s.rootdir with
  | .tree root =>
    let newfile : FileBase := ⟨s.next, path⟩
    (root.find? dir).map fun _ => s.remember newfile (.tree (root.update dir (·.pushFile newfile)))
  | _ => none

/-- For a file of the directory -/
def removeFile (s : FileSystem) (dir oldfile : ℕ) : Option FileSystem :=
  match s.rootdir with
  | .tree root =>
    (root.find? dir).bind fun d =>
      (d.files.find? (·.id = oldfile)).map fun f =>
        s.after (s.toRegistry.delete f) (.tree (root.update dir (·.eraseFile oldfile)))
  | _ => none

def addDirectory (s : FileSystem) (parentdir : Option ℕ) (path : Text) : Option FileSystem :=
  let newdir : FileBase := ⟨s.next, path⟩
  match parentdir with
  | none => some (s.remember newdir (.tree (.mk newdir [] [])))
  | some parentdir =>
    match s.rootdir with
    | .tree root =>
      (root.find? parentdir).map fun _ =>
        s.remember newdir (.tree (root.update parentdir (·.pushDirectory (.mk newdir [] []))))
    | _ => none

/-- `clear()` empties the vectors before the destructor clears them once more. -/
def removeDirectory (s : FileSystem) (olddir : ℕ) : Option FileSystem :=
  match s.rootdir with
  | .tree root =>
    (root.find? olddir).map fun d =>
      s.after ((d.emptied.clear (d.clear s.toRegistry)).delete d.self)
        (Rootdir.unlink root olddir)
  | _ => none

def clear (s : FileSystem) (dir : ℕ) : Option FileSystem :=
  match s.rootdir with
  | .tree root =>
    (root.find? dir).map fun d =>
      s.after (d.clear s.toRegistry) (.tree (root.update dir (·.emptied)))
  | _ => none

/-- The map is cleared first, so that the destructors are fast, and the root comes back at the
end. -/
def clearRootdir (s : FileSystem) : Option FileSystem :=
  match s.rootdir with
  | .nullptr => some s
  | .dangling => none
  | .tree root =>
    let r := root.clear ⟨fun _ => none, s.deleted⟩
    some (s.after { r with fileByPath := r.fileByPath.remember root.self } (.tree root.emptied))

/-- A call whose arguments are live: of a directory in the tree, for a file in that directory -/
def step (s : FileSystem) : Op → Option FileSystem
  | .addFile dir path => s.addFile dir path
  | .removeFile dir oldfile => s.removeFile dir oldfile
  | .addDirectory parentdir path => s.addDirectory parentdir path
  | .removeDirectory olddir => s.removeDirectory olddir
  | .clear dir => s.clear dir
  | .clearRootdir => s.clearRootdir

/-! ## What the index is for -/

/-- A lookup gives a file of the tree that has the path, if there is one, and never a deleted
file. -/
structure Agree (s : FileSystem) : Prop where
  sound : ∀ p id, s.get p = some id → ∃ n ∈ s.nodes, n.id = id ∧ n.path = p
  complete : ∀ n ∈ s.nodes, s.get n.path ≠ none
  live : ∀ p id, s.get p = some id → id ∉ s.deleted

/-- What a call deletes -/
def deletes (s : FileSystem) : Op → List FileBase
  | .removeFile _ oldfile => s.nodes.filter (·.id = oldfile)
  | .removeDirectory olddir => ((s.rootdir.find? olddir).map (·.nodes)).getD []
  | .clear dir => ((s.rootdir.find? dir).map (·.contents)).getD []
  | .clearRootdir => s.nodes.tail
  | _ => []

end FileSystem

/-- Every file that has the path of a deleted file is deleted too, or the map is made anew. A
second root, below which nothing of the first tree is found, has the path of all that was there. -/
def Op.Careful (s : FileSystem) : Op → Prop
  | .clearRootdir => True
  | .addDirectory none path => ∀ n ∈ s.nodes, n.path = path
  | op => ∀ m ∈ s.deletes op, ∀ n ∈ s.nodes, n.path = m.path → n ∈ s.deletes op

instance (s : FileSystem) (op : Op) : Decidable (op.Careful s) := by
  unfold Op.Careful
  split <;> infer_instance

namespace FileSystem

/-! ## What a step can do -/

/-- The addresses are told apart, and an entry of the map stands under the path of its file. -/
structure WellFormed (s : FileSystem) : Prop where
  distinct : Directory.Distinct s.nodes
  lt_next : ∀ n ∈ s.nodes, n.id < s.next
  deleted_lt : ∀ id ∈ s.deleted, id < s.next
  notDeleted : ∀ n ∈ s.nodes, n.id ∉ s.deleted
  entry_lt : ∀ p id, s.get p = some id → id < s.next
  entry_live : ∀ p id, s.get p = some id → id ∉ s.deleted
  entry_path : ∀ p id, s.get p = some id → ∀ n ∈ s.nodes, n.id = id → n.path = p

inductive Change (s : FileSystem) (op : Op) : FileSystem → Prop
  /-- a file or a directory is added below a directory -/
  | added {f : FileBase} {rootdir : Rootdir} : f.id = s.next → op.Careful s →
      rootdir.nodes.Perm (f :: s.nodes) → Change s op (s.remember f rootdir)
  /-- a root without files takes the place of the tree -/
  | planted {f : FileBase} : f.id = s.next → (op.Careful s ↔ ∀ n ∈ s.nodes, n.path = f.path) →
      Change s op (s.remember f (.tree (.mk f [] [])))
  /-- some files are deleted -/
  | removed {ns : List FileBase} {r : Registry} {rootdir : Rootdir} :
      s.nodes.Perm (ns ++ rootdir.nodes) → Deletes ns s.toRegistry r →
      (op.Careful s ↔ ∀ m ∈ ns, ∀ n ∈ rootdir.nodes, n.path ≠ m.path) →
      Change s op (s.after r rootdir)
  /-- only the root is left -/
  | cleared {root : Directory} {r : Registry} : op.Careful s → s.rootdir = .tree root →
      Deletes root.contents ⟨fun _ => none, s.deleted⟩ r →
      Change s op
        (s.after { r with fileByPath := r.fileByPath.remember root.self } (.tree root.emptied))
  | same : op.Careful s → Change s op s

variable {s s' : FileSystem} {op : Op}

/-- Nothing is deleted. -/
theorem careful_of_deletes_eq_nil (h : s.deletes op = [])
    (hroot : ∀ path, op ≠ .addDirectory none path) : op.Careful s := by
  unfold Op.Careful
  split
  · trivial
  · exact absurd rfl (hroot _)
  · simp [h]

/-- The files that are left have paths of their own. -/
theorem forall_deleted_iff {ns ds rest : List FileBase} (hd : Directory.Distinct s.nodes)
    (hperm : s.nodes.Perm (ns ++ rest)) (hds : ∀ n, n ∈ ds ↔ n ∈ ns) :
    (∀ m ∈ ds, ∀ n ∈ s.nodes, n.path = m.path → n ∈ ds) ↔
      ∀ m ∈ ns, ∀ n ∈ rest, n.path ≠ m.path := by
  have hapart := (hd.perm hperm).of_append.2.2
  constructor
  · intro h m hm n hn hpath
    have hmem : n ∈ s.nodes := hperm.mem_iff.mpr (List.mem_append_right _ hn)
    have hdead := (hds n).mp (h m ((hds m).mpr hm) n hmem hpath)
    exact hapart n hdead n hn rfl
  · intro h m hm n hn hpath
    rcases List.mem_append.mp (hperm.mem_iff.mp hn) with hdead | hrest
    · exact (hds n).mpr hdead
    · exact absurd hpath (h m ((hds m).mp hm) n hrest)

theorem nodes_of_tree {root : Directory} (hroot : s.rootdir = .tree root) :
    s.nodes = root.nodes := by
  rw [nodes, hroot, Rootdir.nodes]

theorem addFile_change {dir : ℕ} {path : Text} (h : s.WellFormed)
    (hstep : s.addFile dir path = some s') : Change s (.addFile dir path) s' := by
  unfold addFile at hstep
  split at hstep
  case h_1 root hroot =>
    obtain ⟨d, hd, rfl⟩ := Option.map_eq_some_iff.mp hstep
    have hnodes := nodes_of_tree hroot
    refine .added rfl (careful_of_deletes_eq_nil rfl (by simp)) ?_
    rw [hnodes]
    exact Directory.update_perm_of_added (hnodes ▸ h.distinct) hd (d.pushFile_perm _)
  case h_2 => contradiction

theorem addDirectory_change {parentdir : Option ℕ} {path : Text} (h : s.WellFormed)
    (hstep : s.addDirectory parentdir path = some s') :
    Change s (.addDirectory parentdir path) s' := by
  unfold addDirectory at hstep
  split at hstep
  case h_1 =>
    obtain rfl := Option.some.inj hstep
    exact .planted rfl Iff.rfl
  case h_2 parentdir =>
    split at hstep
    case h_1 root hroot =>
      obtain ⟨d, hd, rfl⟩ := Option.map_eq_some_iff.mp hstep
      have hnodes := nodes_of_tree hroot
      refine .added rfl (careful_of_deletes_eq_nil rfl (by simp)) ?_
      rw [hnodes]
      exact Directory.update_perm_of_added (hnodes ▸ h.distinct) hd (d.pushDirectory_perm _)
    case h_2 => contradiction

theorem removeFile_change {dir oldfile : ℕ} (h : s.WellFormed)
    (hstep : s.removeFile dir oldfile = some s') : Change s (.removeFile dir oldfile) s' := by
  unfold removeFile at hstep
  split at hstep
  case h_1 root hroot =>
    obtain ⟨d, hd, hfile⟩ := Option.bind_eq_some_iff.mp hstep
    obtain ⟨f, hf, rfl⟩ := Option.map_eq_some_iff.mp hfile
    have hid : f.id = oldfile := by simpa using List.find?_some hf
    have hperm : s.nodes.Perm ([f] ++ (root.update dir (·.eraseFile oldfile)).nodes) := by
      have hnodes := nodes_of_tree hroot
      rw [hnodes]
      exact Directory.update_perm_of_removed (hnodes ▸ h.distinct) hd (Directory.eraseFile_perm hf)
    have hmem : f ∈ s.nodes := hperm.mem_iff.mpr (by simp)
    refine .removed hperm (.delete _ f) (forall_deleted_iff h.distinct hperm fun n => ?_)
    rw [deletes, List.mem_filter, List.mem_singleton]
    constructor
    · intro hn
      exact h.distinct.eq_of_id hn.1 hmem (by simpa [hid] using hn.2)
    · rintro rfl
      exact ⟨hmem, by simpa using hid⟩
  case h_2 => contradiction

theorem removeDirectory_change {olddir : ℕ} (h : s.WellFormed)
    (hstep : s.removeDirectory olddir = some s') : Change s (.removeDirectory olddir) s' := by
  unfold removeDirectory at hstep
  split at hstep
  case h_1 root hroot =>
    obtain ⟨d, hd, rfl⟩ := Option.map_eq_some_iff.mp hstep
    have hnodes := nodes_of_tree hroot
    have hperm : s.nodes.Perm (d.nodes ++ (Rootdir.unlink root olddir).nodes) := by
      rw [hnodes, Rootdir.unlink]
      split_ifs with hself
      · -- the root itself: nothing is left
        obtain rfl := Option.some.inj ((hself ▸ root.find?_self).symm.trans hd)
        show root.nodes.Perm (root.nodes ++ [])
        rw [List.append_nil]
      · exact Directory.unlink_perm (hnodes ▸ h.distinct) hd hself
    -- the vectors are empty when the destructor clears them
    have hdeletes : Deletes d.nodes s.toRegistry
        ((d.emptied.clear (d.clear s.toRegistry)).delete d.self) := by
      have hagain := d.emptied.clear_deletes (d.clear s.toRegistry)
      rw [Directory.contents_emptied] at hagain
      have hall := ((d.clear_deletes _).append hagain).append (.delete _ d.self)
      rw [List.append_nil] at hall
      exact hall.perm (Directory.nodes_eq d ▸ List.perm_append_singleton ..)
    refine .removed hperm hdeletes (forall_deleted_iff h.distinct hperm fun n => ?_)
    rw [deletes, hroot, Rootdir.find?, hd]
    rfl
  case h_2 => contradiction

theorem clear_change {dir : ℕ} (h : s.WellFormed) (hstep : s.clear dir = some s') :
    Change s (.clear dir) s' := by
  unfold clear at hstep
  split at hstep
  case h_1 root hroot =>
    obtain ⟨d, hd, rfl⟩ := Option.map_eq_some_iff.mp hstep
    have hnodes := nodes_of_tree hroot
    have hperm : s.nodes.Perm (d.contents ++ (root.update dir (·.emptied)).nodes) := by
      rw [hnodes]
      exact Directory.update_perm_of_removed (hnodes ▸ h.distinct) hd d.emptied_perm
    refine .removed hperm (d.clear_deletes _) (forall_deleted_iff h.distinct hperm fun n => ?_)
    rw [deletes, hroot, Rootdir.find?, hd]
    rfl
  case h_2 => contradiction

theorem clearRootdir_change (hstep : s.clearRootdir = some s') : Change s .clearRootdir s' := by
  unfold clearRootdir at hstep
  split at hstep
  case h_1 =>
    obtain rfl := Option.some.inj hstep
    exact .same trivial
  case h_2 => contradiction
  case h_3 root hroot =>
    obtain rfl := Option.some.inj hstep
    exact .cleared trivial hroot (root.clear_deletes _)

theorem step_change (h : s.WellFormed) (hstep : s.step op = some s') : Change s op s' := by
  cases op with
  | addFile dir path => exact addFile_change h hstep
  | removeFile dir oldfile => exact removeFile_change h hstep
  | addDirectory parentdir path => exact addDirectory_change h hstep
  | removeDirectory olddir => exact removeDirectory_change h hstep
  | clear dir => exact clear_change h hstep
  | clearRootdir => exact clearRootdir_change hstep

/-! ## The addresses -/

theorem nodes_planted (f : FileBase) : (Rootdir.tree (.mk f [] [])).nodes = [f] := by
  simp [Rootdir.nodes, Directory.nodes, Directory.nodesOf]

theorem start_wellFormed : start.WellFormed := by
  constructor <;> simp [start, nodes, get, Rootdir.nodes, Directory.Distinct]

theorem get_remember (f : FileBase) (rootdir : Rootdir) (p : Text) :
    (s.remember f rootdir).get p = if p = f.path then some f.id else s.get p := by
  show s.fileByPath.remember f p = _
  rw [FileByPathMap.remember_eq, Function.update_apply]
  rfl

/-- A new file whose nodes are among those of the old tree -/
theorem WellFormed.remember (h : s.WellFormed) {f : FileBase} {rootdir : Rootdir}
    (hid : f.id = s.next) (hdistinct : Directory.Distinct rootdir.nodes)
    (hnodes : ∀ n ∈ rootdir.nodes, n = f ∨ n ∈ s.nodes) : (s.remember f rootdir).WellFormed := by
  have hlt : ∀ n ∈ rootdir.nodes, n.id < s.next + 1 := by
    intro n hn
    rcases hnodes n hn with rfl | hold
    · omega
    · exact Nat.lt_succ_of_lt (h.lt_next n hold)
  have hfresh : s.next ∉ s.deleted := fun hmem => Nat.lt_irrefl _ (h.deleted_lt _ hmem)
  refine ⟨hdistinct, hlt, fun id hmem => Nat.lt_succ_of_lt (h.deleted_lt id hmem), ?_, ?_, ?_, ?_⟩
  · intro n hn
    rcases hnodes n hn with rfl | hold
    · exact hid ▸ hfresh
    · exact h.notDeleted n hold
  all_goals
    intro p id hget
    rw [get_remember] at hget
    split_ifs at hget with hp
  · obtain rfl := Option.some.inj hget
    show f.id < s.next + 1
    omega
  · exact Nat.lt_succ_of_lt (h.entry_lt p id hget)
  · obtain rfl := Option.some.inj hget
    exact hid ▸ hfresh
  · exact h.entry_live p id hget
  · obtain rfl := Option.some.inj hget
    intro n hn hn'
    rcases hnodes n hn with rfl | hold
    · exact hp.symm
    · have := h.lt_next n hold
      omega
  · intro n hn hn'
    rcases hnodes n hn with rfl | hold
    · have := h.entry_lt p id hget
      omega
    · exact h.entry_path p id hget n hold hn'

theorem get_after {ns : List FileBase} {r : Registry} (hr : Deletes ns s.toRegistry r)
    (rootdir : Rootdir) (p : Text) :
    (s.after r rootdir).get p = if p ∈ ns.map (·.path) then none else s.get p :=
  hr.fileByPath p

/-- An entry that is left is an old one, and no file of this path was deleted. -/
theorem get_after_eq_some {ns : List FileBase} {r : Registry} (hr : Deletes ns s.toRegistry r)
    {rootdir : Rootdir} {p : Text} {id : ℕ} :
    (s.after r rootdir).get p = some id ↔ (∀ m ∈ ns, m.path ≠ p) ∧ s.get p = some id := by
  rw [get_after hr, Option.ite_none_left_eq_some, List.mem_map]
  simp

theorem WellFormed.after (h : s.WellFormed) {ns : List FileBase} {r : Registry}
    {rootdir : Rootdir} (hperm : s.nodes.Perm (ns ++ rootdir.nodes))
    (hr : Deletes ns s.toRegistry r) : (s.after r rootdir).WellFormed := by
  have hdistinct := (h.distinct.perm hperm).of_append
  have hdead : ∀ n ∈ ns, n ∈ s.nodes := fun n hn => hperm.mem_iff.mpr (List.mem_append_left _ hn)
  have hrest : ∀ n ∈ rootdir.nodes, n ∈ s.nodes :=
    fun n hn => hperm.mem_iff.mpr (List.mem_append_right _ hn)
  constructor
  case distinct => exact hdistinct.2.1
  case lt_next => exact fun n hn => h.lt_next n (hrest n hn)
  case deleted_lt =>
    intro id hid
    rcases (hr.deleted id).mp hid with hnew | hold
    · obtain ⟨n, hn, rfl⟩ := List.mem_map.mp hnew
      exact h.lt_next n (hdead n hn)
    · exact h.deleted_lt id hold
  case notDeleted =>
    intro n hn hid
    rcases (hr.deleted n.id).mp hid with hnew | hold
    · obtain ⟨m, hm, hmn⟩ := List.mem_map.mp hnew
      exact hdistinct.2.2 m hm n hn hmn
    · exact h.notDeleted n (hrest n hn) hold
  case entry_lt => exact fun p id hget => h.entry_lt p id ((get_after_eq_some hr).mp hget).2
  case entry_live =>
    intro p id hget hid
    have hold := (get_after_eq_some hr).mp hget
    rcases (hr.deleted id).mp hid with hnew | hdeleted
    · -- the entry of a file deleted now stood under its path, which is forgotten
      obtain ⟨n, hn, rfl⟩ := List.mem_map.mp hnew
      exact hold.1 n hn (h.entry_path p _ hold.2 n (hdead n hn) rfl)
    · exact h.entry_live p id hold.2 hdeleted
  case entry_path =>
    intro p id hget n hn
    exact h.entry_path p id ((get_after_eq_some hr).mp hget).2 n (hrest n hn)

section Cleared

variable {root : Directory} {r : Registry}

/-- The state after `clear_rootdir` -/
def cleared (s : FileSystem) (root : Directory) (r : Registry) : FileSystem :=
  s.after { r with fileByPath := r.fileByPath.remember root.self } (.tree root.emptied)

theorem nodes_cleared : (s.cleared root r).nodes = [root.self] := by
  show root.emptied.nodes = _
  rw [Directory.nodes_eq, Directory.contents_emptied, Directory.self_emptied]

theorem get_cleared (hr : Deletes root.contents ⟨fun _ => none, s.deleted⟩ r) (p : Text) :
    (s.cleared root r).get p = if p = root.self.path then some root.self.id else none := by
  show r.fileByPath.remember root.self p = _
  rw [FileByPathMap.remember_eq, Function.update_apply, hr.fileByPath, ite_self]

theorem WellFormed.cleared (h : s.WellFormed) (hroot : s.rootdir = .tree root)
    (hr : Deletes root.contents ⟨fun _ => none, s.deleted⟩ r) : (s.cleared root r).WellFormed := by
  have hnodes : s.nodes = root.self :: root.contents := by
    rw [nodes_of_tree hroot, Directory.nodes_eq]
  have hself : root.self ∈ s.nodes := hnodes ▸ List.mem_cons_self
  -- the root is not among the files that are deleted
  have hlive : root.self.id ∉ r.deleted := by
    intro hid
    rcases (hr.deleted _).mp hid with hnew | hold
    · have hdistinct := h.distinct
      rw [hnodes] at hdistinct
      exact (List.nodup_cons.mp hdistinct).1 hnew
    · exact h.notDeleted _ hself hold
  have hentry : ∀ p id, (s.cleared root r).get p = some id →
      p = root.self.path ∧ root.self.id = id := by
    intro p id hget
    rw [get_cleared hr, Option.ite_none_right_eq_some] at hget
    exact ⟨hget.1, Option.some.inj hget.2⟩
  have hmem : ∀ n ∈ (s.cleared root r).nodes, n = root.self := by
    simp [nodes_cleared]
  constructor
  case distinct => simp [nodes_cleared, Directory.Distinct]
  case lt_next =>
    intro n hn
    exact hmem n hn ▸ h.lt_next _ hself
  case deleted_lt =>
    intro id hid
    rcases (hr.deleted id).mp hid with hnew | hold
    · obtain ⟨n, hn, rfl⟩ := List.mem_map.mp hnew
      exact h.lt_next n (hnodes ▸ List.mem_cons_of_mem _ hn)
    · exact h.deleted_lt id hold
  case notDeleted =>
    intro n hn
    exact hmem n hn ▸ hlive
  case entry_lt =>
    intro p id hget
    exact (hentry p id hget).2 ▸ h.lt_next _ hself
  case entry_live =>
    intro p id hget
    exact (hentry p id hget).2 ▸ hlive
  case entry_path =>
    intro p id hget n hn _
    rw [hmem n hn, (hentry p id hget).1]

end Cleared

theorem WellFormed.step (h : s.WellFormed) (hstep : s.step op = some s') : s'.WellFormed := by
  cases step_change h hstep with
  | added hid _ hperm =>
    refine h.remember hid (Directory.Distinct.perm ?_ hperm.symm) fun n hn => ?_
    · refine List.nodup_cons.mpr ⟨fun hmem => ?_, h.distinct⟩
      obtain ⟨n, hn, hn'⟩ := List.mem_map.mp hmem
      exact (h.lt_next n hn).ne (hn'.trans hid)
    · exact List.mem_cons.mp (hperm.mem_iff.mp hn)
  | planted hid _ =>
    refine h.remember hid ?_ fun n hn => ?_
    · simp [nodes_planted, Directory.Distinct]
    · exact .inl (by simpa [nodes_planted] using hn)
  | removed hperm hr _ => exact h.after hperm hr
  | cleared _ hroot hr => exact h.cleared hroot hr
  | same _ => exact h

/-! ## The index -/

/-- New files take the entry of the path. -/
theorem Agree.added (h : s.Agree) {f : FileBase} {rootdir : Rootdir}
    (hwf' : (s.remember f rootdir).WellFormed) (hperm : rootdir.nodes.Perm (f :: s.nodes)) :
    (s.remember f rootdir).Agree where
  sound p id hget := by
    rw [get_remember] at hget
    split_ifs at hget with hp
    · exact ⟨f, hperm.mem_iff.mpr List.mem_cons_self, Option.some.inj hget, hp.symm⟩
    · obtain ⟨n, hn, hn'⟩ := h.sound p id hget
      exact ⟨n, hperm.mem_iff.mpr (List.mem_cons_of_mem _ hn), hn'⟩
  complete n hn := by
    rw [get_remember]
    split_ifs with hp
    · exact Option.some_ne_none _
    · rcases List.mem_cons.mp (hperm.mem_iff.mp hn) with rfl | hold
      · exact absurd rfl hp
      · exact h.complete n hold
  live := hwf'.entry_live

/-- A path that the new root does not have would still be found. -/
theorem Agree.planted_iff (h : s.Agree) {f : FileBase}
    (hwf' : (s.remember f (.tree (.mk f [] []))).WellFormed) :
    (s.remember f (.tree (.mk f [] []))).Agree ↔ ∀ n ∈ s.nodes, n.path = f.path := by
  have hnodes : (s.remember f (.tree (.mk f [] []))).nodes = [f] := nodes_planted f
  constructor
  · intro h' n hn
    by_contra hp
    obtain ⟨id, hget⟩ := Option.ne_none_iff_exists'.mp (h.complete n hn)
    have hget' : (s.remember f (.tree (.mk f [] []))).get n.path = some id := by
      rw [get_remember, if_neg hp, hget]
    obtain ⟨m, hm, -, hpath⟩ := h'.sound _ _ hget'
    rw [hnodes, List.mem_singleton] at hm
    exact hp (hm ▸ hpath.symm)
  · intro hall
    refine ⟨fun p id hget => ?_, fun n hn => ?_, hwf'.entry_live⟩
    · rw [get_remember] at hget
      split_ifs at hget with hp
      · exact ⟨f, by simp [hnodes], Option.some.inj hget, hp.symm⟩
      · obtain ⟨n, hn, -, hpath⟩ := h.sound p id hget
        exact absurd (hpath ▸ hall n hn) hp
    · rw [hnodes, List.mem_singleton] at hn
      rw [get_remember, hn, if_pos rfl]
      exact Option.some_ne_none _

/-- The path of a deleted file is forgotten, also for a file that is left. -/
theorem Agree.removed_iff (h : s.Agree) {ns : List FileBase} {r : Registry} {rootdir : Rootdir}
    (hperm : s.nodes.Perm (ns ++ rootdir.nodes)) (hr : Deletes ns s.toRegistry r)
    (hwf' : (s.after r rootdir).WellFormed) :
    (s.after r rootdir).Agree ↔ ∀ m ∈ ns, ∀ n ∈ rootdir.nodes, n.path ≠ m.path := by
  constructor
  · intro h' m hm n hn hpath
    refine h'.complete n hn ?_
    rw [get_after hr, if_pos]
    exact hpath ▸ List.mem_map_of_mem hm
  · intro hapart
    refine ⟨fun p id hget => ?_, fun n hn => ?_, hwf'.entry_live⟩
    · have hold := (get_after_eq_some hr).mp hget
      obtain ⟨n, hn, hid, hpath⟩ := h.sound p id hold.2
      rcases List.mem_append.mp (hperm.mem_iff.mp hn) with hdead | hrest
      · exact absurd hpath (hold.1 n hdead)
      · exact ⟨n, hrest, hid, hpath⟩
    · rw [get_after hr, if_neg]
      · exact h.complete n (hperm.mem_iff.mpr (List.mem_append_right _ hn))
      · intro hmem
        obtain ⟨m, hm, hpath⟩ := List.mem_map.mp hmem
        exact hapart m hm n hn hpath.symm

theorem agree_cleared {root : Directory} {r : Registry}
    (hr : Deletes root.contents ⟨fun _ => none, s.deleted⟩ r)
    (hwf' : (s.cleared root r).WellFormed) : (s.cleared root r).Agree where
  sound p id hget := by
    rw [get_cleared hr, Option.ite_none_right_eq_some] at hget
    exact ⟨root.self, by simp [nodes_cleared], Option.some.inj hget.2, hget.1.symm⟩
  complete n hn := by
    rw [nodes_cleared, List.mem_singleton] at hn
    rw [get_cleared hr, hn, if_pos rfl]
    exact Option.some_ne_none _
  live := hwf'.entry_live

theorem step_agree_iff (hwf : s.WellFormed) (h : s.Agree) (hstep : s.step op = some s') :
    s'.Agree ↔ op.Careful s := by
  have hwf' := hwf.step hstep
  cases step_change hwf hstep with
  | added _ hcareful hperm => exact iff_of_true (h.added hwf' hperm) hcareful
  | planted _ hcareful => exact (h.planted_iff hwf').trans hcareful.symm
  | removed hperm hr hcareful => exact (h.removed_iff hperm hr hwf').trans hcareful.symm
  | cleared hcareful _ hr => exact iff_of_true (agree_cleared hr hwf') hcareful
  | same hcareful => exact iff_of_true h hcareful

theorem start_agree : start.Agree where
  sound _ _ hget := absurd hget (Option.some_ne_none _).symm
  complete _ hn := absurd hn List.not_mem_nil
  live := start_wellFormed.entry_live

/-! ## Runs -/

/-- Reached from the constructor by any calls -/
def Reached : FileSystem → Prop :=
  Reachable (· = start) fun s t => ∃ op, s.step op = some t

/-- Reached by careful calls only -/
def CarefullyReached : FileSystem → Prop :=
  Reachable (· = start) fun s t => ∃ op, op.Careful s ∧ s.step op = some t

theorem Reached.wellFormed (h : s.Reached) : s.WellFormed := by
  refine h.invariant (fun s hs => hs ▸ start_wellFormed) fun s t hwf hst => ?_
  obtain ⟨op, hstep⟩ := hst
  exact hwf.step hstep

theorem CarefullyReached.reached (h : s.CarefullyReached) : s.Reached := by
  refine h.mono fun s t hst => ?_
  obtain ⟨op, -, hstep⟩ := hst
  exact ⟨op, hstep⟩

theorem CarefullyReached.agree (h : s.CarefullyReached) : s.Agree := by
  refine h.invariant' (fun s hs => hs ▸ start_agree) fun s t hs hagree hst => ?_
  obtain ⟨op, hcareful, hstep⟩ := hst
  have hwf := (CarefullyReached.reached hs).wellFormed
  exact (step_agree_iff hwf hagree hstep).mpr hcareful

/-- A lookup never gives a deleted file. The index agrees with the tree as long as the calls are
careful, and no longer. -/
theorem lookup_exact (h : s.Reached) :
    (∀ p id, s.get p = some id → id ∉ s.deleted) ∧
      (s.CarefullyReached →
        s.Agree ∧ ∀ op s', s.step op = some s' → (s'.Agree ↔ op.Careful s)) := by
  refine ⟨h.wellFormed.entry_live, fun hc => ⟨hc.agree, fun op s' hstep => ?_⟩⟩
  exact step_agree_iff h.wellFormed hc.agree hstep

/-- The calls for a medium whose directory names one file twice -/
def namedTwice : List Op :=
  [.addDirectory none [], .addFile 0 "A.TXT".toList, .addFile 0 "A.TXT".toList]

theorem lookup_exact_namedTwice : ∃ s, run (guarded (fun s op => op.Careful s) step) start
    namedTwice = some s ∧ s.Agree ∧ s.get "A.TXT".toList = some 2 := by
  obtain ⟨s, hs⟩ := Option.isSome_iff_exists.mp
    (show (run (guarded (fun s op => op.Careful s) step) start namedTwice).isSome by decide)
  have hreached : s.CarefullyReached := reachable_of_guarded rfl hs
  refine ⟨s, hs, ((lookup_exact hreached.reached).2 hreached).1, ?_⟩
  have hget : (run (guarded (fun s op => op.Careful s) step) start namedTwice).bind
      (·.get "A.TXT".toList) = some 2 := by decide
  rwa [hs] at hget

/-- Of the two files the one that a lookup gave is deleted, and no lookup gives the other. -/
theorem namedTwice_not_agree : ¬ ∀ s, Reached s → s.Agree := by
  intro hall
  have hrun : (run step start (namedTwice ++ [.removeFile 0 2])).map
      (fun s => (s.nodes, s.get "A.TXT".toList)) =
        some ([⟨0, []⟩, ⟨1, "A.TXT".toList⟩], none) := by decide
  obtain ⟨s, hs, hview⟩ := Option.map_eq_some_iff.mp hrun
  have hreached : s.Reached := .run (fun _ op _ hstep => ⟨op, hstep⟩) (.init rfl) hs
  rw [Prod.mk.injEq] at hview
  refine (hall s hreached).complete ⟨1, "A.TXT".toList⟩ ?_ hview.2
  rw [hview.1]
  decide

/-! ## A root without subdirectories -/

section Mirrors

variable {φ : Type}

/-- The file as `file_by_path` knows it -/
def fileOf (n : Node φ) : FileBase := ⟨n.id, n.path⟩

/-- The files of the root, and the entries of the map but for the one of the root itself -/
structure Mirrors (s : FileSystem) (root : FileBase) (t : FileTree φ) : Prop where
  rootdir : s.rootdir = .tree (.mk root [] (t.files.map fileOf))
  next : s.next = t.next
  get : ∀ p ≠ root.path, s.get p = t.fileByPath p

theorem Mirrors.addFile {root : FileBase} {t : FileTree φ} (h : Mirrors s root t) {path : Text}
    (f : φ) : ∃ s', s.addFile root.id path = some s' ∧ Mirrors s' root (t.addFile path f) := by
  have hadd : s.addFile root.id path = some (s.remember ⟨s.next, path⟩
      (.tree (.mk root [] (t.files.map fileOf ++ [⟨s.next, path⟩])))) := by
    simp [FileSystem.addFile, h.rootdir, Directory.find?, Directory.update, Directory.pushFile,
      Directory.self, Directory.subdirectories, Directory.files]
  refine ⟨_, hadd, ?_, ?_, fun p hp => ?_⟩
  · show Rootdir.tree _ = _
    simp [FileTree.addFile, fileOf, h.next]
  · exact congrArg (· + 1) h.next
  · rw [get_remember, h.get p hp, h.next]
    exact (Function.update_apply ..).symm

theorem find?_fileOf {ns : List (Node φ)} (hnodup : (ns.map (·.id)).Nodup) {n : Node φ}
    (hn : n ∈ ns) : (ns.map fileOf).find? (·.id = n.id) = some (fileOf n) := by
  have hfind := FileTree.find?_id hnodup hn
  rw [List.find?_map]
  exact congrArg (Option.map fileOf) hfind

theorem eraseP_fileOf {ns : List (Node φ)} (hnodup : (ns.map (·.id)).Nodup) (id : ℕ) :
    (ns.map fileOf).eraseP (·.id = id) = (ns.filter (·.id ≠ id)).map fileOf := by
  induction ns with
  | nil => rfl
  | cons m ns ih =>
    rw [List.map_cons, List.nodup_cons] at hnodup
    have hid : (fileOf m).id = m.id := rfl
    by_cases hm : m.id = id
    · -- no other file has the address
      have hall : ∀ n ∈ ns, n.id ≠ id := by
        intro n hn heq
        exact hnodup.1 (hm.trans heq.symm ▸ List.mem_map_of_mem hn)
      rw [List.map_cons, List.eraseP_cons_of_pos (by simp [hid, hm]),
        List.filter_cons_of_neg (by simp [hm]), List.filter_eq_self.mpr (by simpa using hall)]
    · rw [List.map_cons, List.eraseP_cons_of_neg (by simp [hid, hm]), ih hnodup.2,
        List.filter_cons_of_pos (by simp [hm]), List.map_cons]

theorem Mirrors.removeFile {root : FileBase} {t : FileTree φ} (h : Mirrors s root t)
    (ht : t.Indexed) {n : Node φ} (hn : n ∈ t.files) :
    ∃ s', s.removeFile root.id n.id = some s' ∧ Mirrors s' root (t.removeFile n) := by
  have hremove : s.removeFile root.id n.id = some (s.after (s.toRegistry.delete (fileOf n))
      (.tree (.mk root [] ((t.removeFile n).files.map fileOf)))) := by
    simp only [FileSystem.removeFile, h.rootdir, Directory.find?, Directory.update,
      Directory.eraseFile, Directory.self, Directory.subdirectories, Directory.files, if_true,
      Option.bind_some, find?_fileOf ht.nodup hn, Option.map_some, eraseP_fileOf ht.nodup,
      FileTree.removeFile]
  refine ⟨_, hremove, rfl, h.next, fun p hp => ?_⟩
  show Function.update s.fileByPath n.path none p = Function.update t.fileByPath n.path none p
  rw [Function.update_apply, Function.update_apply]
  exact congrArg _ (h.get p hp)

end Mirrors

end FileSystem

end QUniBone.Sharedfs
