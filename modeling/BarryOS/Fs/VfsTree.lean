import BarryOS.Fs.VfsLinks
import BarryOS.Lib.Run
import Mathlib.Data.List.Nodup

/-!
# The vnode tree

`create_node` does not look at the parent it is given: a caller that still holds the
id of a removed directory (the file manager's current directory, say) or of a file gets
a node under it. Where every node is made under a directory in use (`Admits`), the table
is a tree in every run from `reset`.
-/

namespace BarryOS.Fs.Vfs

open Lib

/-- The table is a tree. -/
structure Tree (t : Vfs) : Prop where
  /-- A used vnode other than the root has a used directory as its parent, which lists it
  exactly once. -/
  parent : ∀ v ∈ t.vnodes, v.id ≠ 0 → v.id ≠ rootId →
    ∃ p ∈ t.vnodes, p.id ≠ 0 ∧ p.id = v.parentId ∧ p.vtype = .dir ∧ p.childIds.count v.id = 1
  /-- No other directory lists it. -/
  lister : ∀ v ∈ t.vnodes, v.id ≠ 0 → ∀ p ∈ t.vnodes, p.id ≠ 0 → v.id ∈ p.childIds → p.id = v.parentId
  /-- Following parents from it reaches the root. -/
  rooted : ∀ v ∈ t.vnodes, v.id ≠ 0 → ∃ n, t.getParent^[n] v.id = rootId

/-- Every node but the root is listed by an older directory. -/
structure Placed (t : Vfs) : Prop extends Linked t where
  placed : ∀ {id v}, t.node id = some v → id ≠ rootId → v.parentId.toNat < id.toNat ∧
    ∃ p, t.node v.parentId = some p ∧ p.vtype = .dir ∧ id ∈ p.childIds

variable {t : Vfs}

theorem Placed.rooted (h : Placed t) {id : UInt64} {v : Vnode} (hv : t.node id = some v) :
    ∃ n, t.getParent^[n] id = rootId := by
  -- Parents have smaller ids, so the walk up is an induction on the id.
  induction hn : id.toNat using Nat.strongRecOn generalizing id v with
  | ind n ih =>
    by_cases isRoot : id = rootId
    · exact ⟨0, isRoot⟩
    obtain ⟨lt, p, hp, _, _⟩ := h.placed hv isRoot
    obtain ⟨k, hk⟩ := ih _ (hn ▸ lt) hp rfl
    refine ⟨k + 1, ?_⟩
    rw [Function.iterate_succ_apply, getParent_eq hv, hk]

theorem Placed.tree (h : Placed t) : Tree t := by
  refine ⟨?_, ?_, ?_⟩
  · intro v hv used notRoot
    obtain ⟨_, p, hp, dir, listed⟩ := h.placed (h.node_of_mem hv used) notRoot
    refine ⟨p, node_mem hp, ?_, (node_id hp).1, dir, List.count_eq_one_of_mem (h.nodup hp) listed⟩
    rw [(node_id hp).1]
    exact (node_id hp).2
  · intro v hv used p hp usedP listed
    exact (h.lister (h.node_of_mem hp usedP) listed (h.node_of_mem hv used)).symm
  · intro v hv used
    exact h.rooted (h.node_of_mem hv used)

/-- The condition of one call: a node is made under a directory in use, and the id counter
has not reached its end. -/
def Admits (t : Vfs) : VfsOp → Prop
  | .createFile _ parentId name | .createDir _ parentId name =>
    t.CountsOn parentId name ∧ (t.mayCreate parentId name = true → t.allocSlot.isSome = true →
      t.getType parentId = some .dir)
  | _ => True

theorem Placed.created {u : Vfs} (h : Placed t) (linked : Linked u) {new : Vnode}
    (nodes : ∀ j, u.node j = t.createdNode new j) (under : t.getType new.parentId = some .dir) : Placed u := by
  refine ⟨linked, ?_⟩
  intro id v hv notRoot
  obtain ⟨p, hp, dir⟩ : ∃ p, t.node new.parentId = some p ∧ p.vtype = .dir := by
    simpa [getType] using under
  rw [nodes] at hv
  obtain ⟨w, ⟨rfl, rfl⟩ | ⟨_, hw⟩, rfl⟩ := createdNode_some hv
  · refine ⟨h.node_lt hp, _, (nodes _).trans (createdNode_old h.toTable _ hp), dir, ?_⟩
    simp
  · obtain ⟨lt, q, hq, qDir, listed⟩ := h.placed hw notRoot
    rw [nodes, createdNode_old h.toTable _ hq]
    exact ⟨lt, _, rfl, qDir, List.mem_append_left _ listed⟩

theorem Placed.createNode (h : Placed t) (ids : UInt32 × UInt32) {parentId : UInt64}
    {name : Str} {vtype : VnodeType} (kind : vtype ≠ .symlink) (room : t.CountsOn parentId name)
    (under : t.mayCreate parentId name = true → t.allocSlot.isSome = true → t.getType parentId = some .dir) :
    Placed (Vfs.createNode ids t parentId name vtype).2 := by
  have linked := h.toLinked.createNode ids kind room
  obtain ⟨_, ⟨_, same⟩ | ⟨_, may, slot, nodes⟩⟩ := createNode_cases h.toTable ids vtype room
  · refine ⟨linked, ?_⟩
    intro id v hv notRoot
    rw [same] at hv ⊢
    exact h.placed hv notRoot
  · exact h.created linked nodes (under may slot)

theorem Placed.unlink (h : Placed t) (parentId : UInt64) (name : Str) : Placed (t.unlink parentId name).2 := by
  refine ⟨h.toLinked.unlink parentId name, ?_⟩
  intro id v hv notRoot
  rcases unlink_cases h.toTable parentId name with ⟨_, same⟩ | ⟨_, _, p, c, hp, listed, hc, empty, nodes⟩
  · rw [same] at hv ⊢
    exact h.placed hv notRoot
  generalize t.lookup parentId name = gone at *
  rw [nodes] at hv
  obtain ⟨stays, w, hw, rfl⟩ := unlinkedNode_some hv
  obtain ⟨lt, q, hq, qDir, itsList⟩ := h.placed hw notRoot
  -- A directory that is removed lists nothing, so it is nobody's parent.
  have parentStays : w.parentId ≠ gone := by
    intro e
    rw [e] at hq
    cases hq.symm.trans hc
    rw [empty qDir] at itsList
    exact absurd itsList List.not_mem_nil
  refine ⟨lt, _, (nodes _).trans (unlinkedNode_old hq parentStays), qDir, ?_⟩
  dsimp only
  split
  · exact (List.mem_erase_of_ne stays).mpr itsList
  · exact itsList

theorem Placed.rename (h : Placed t) (parentId : UInt64) (old new : Str) : Placed (t.rename parentId old new).2 := by
  refine ⟨h.toLinked.rename parentId old new, ?_⟩
  intro id v hv notRoot
  rcases rename_cases h.toTable parentId old new with ⟨_, same⟩ | ⟨_, _, _, _, _, _, _, _, _, _, nodes⟩
  · rw [same] at hv ⊢
    exact h.placed hv notRoot
  have links := fun j w => renamed_links (t.lookup parentId old) j new w
  rw [nodes] at hv
  obtain ⟨w, hw, rfl⟩ := renamedNode_some hv
  obtain ⟨lt, q, hq, qDir, listed⟩ := h.placed hw notRoot
  rw [(links id w).2.1]
  refine ⟨lt, _, (nodes _).trans (renamedNode_old hq), ?_, ?_⟩
  · rw [(links _ q).2.2]
    exact qDir
  · rw [(links _ q).1]
    exact listed

theorem Placed.reset : Placed Vfs.reset := by
  refine ⟨Linked.reset, ?_⟩
  intro id v hv notRoot
  exact absurd (reset_only hv).1 notRoot

theorem Placed.step {op : VfsOp} (h : Placed t) (admits : Admits t op) : Placed (t.step op) := by
  cases op with
  | createFile ids parentId name => exact h.createNode ids (by decide) admits.1 admits.2
  | createDir ids parentId name => exact h.createNode ids (by decide) admits.1 admits.2
  | unlink parentId name => exact h.unlink parentId name
  | rename parentId old new => exact h.rename parentId old new
  | reset => exact Placed.reset

/-- Every run from a freshly reset table in which nodes are made under directories in use
ends in a tree. -/
theorem tree_of_admits (ops : List VfsOp) (admitted : Along Vfs.step Admits Vfs.reset ops) :
    Tree (run Vfs.step Vfs.reset ops) :=
  (admitted.invariant Placed (fun _ _ h ok => h.step ok) Placed.reset).tree

/-- The condition without the directory. -/
def Counts (t : Vfs) : VfsOp → Prop
  | .createFile _ parentId name | .createDir _ parentId name => t.CountsOn parentId name
  | _ => True

theorem Linked.step {op : VfsOp} (h : Linked t) (counts : Counts t op) : Linked (t.step op) := by
  cases op with
  | createFile ids parentId name => exact h.createNode ids (by decide) counts
  | createDir ids parentId name => exact h.createNode ids (by decide) counts
  | unlink parentId name => exact h.unlink parentId name
  | rename parentId old new => exact h.rename parentId old new
  | reset => exact Linked.reset

/-- In every run, whatever ids the callers pass, children exist and point back at the one directory that lists
them, and siblings have different names. -/
theorem linked_of_counts (ops : List VfsOp) (counted : Along Vfs.step Counts Vfs.reset ops) :
    Linked (run Vfs.step Vfs.reset ops) :=
  counted.invariant Linked (fun _ _ h ok => h.step ok) Linked.reset

/-! ## Short runs -/

def nameD : Str := .letter 3
def nameF : Str := .letter 5

theorem tree_of_dir_and_file :
    Tree (run Vfs.step Vfs.reset [.createDir (0, 0) rootId nameD, .createFile (0, 0) 2 nameF]) :=
  tree_of_admits _ ⟨⟨fun _ => by decide, fun _ _ => by decide⟩, ⟨fun _ => by decide, fun _ _ => by decide⟩, trivial⟩

theorem linked_under_removed_directory :
    Linked (run Vfs.step Vfs.reset [.createDir (0, 0) rootId nameD, .unlink rootId nameD,
      .createFile (0, 0) 2 nameF]) :=
  linked_of_counts _ ⟨fun _ => by decide, trivial, fun _ => by decide, trivial⟩

/-- A directory is made and removed, and a file is made in it afterwards. -/
theorem file_under_removed_directory : ¬ ∀ ops : List VfsOp, Tree (run Vfs.step Vfs.reset ops) := by
  intro claim
  have tree := claim [.createDir (0, 0) rootId nameD, .unlink rootId nameD, .createFile (0, 0) 2 nameF]
  obtain ⟨p, hp, used, parent, _⟩ := tree.parent (newNode (0, 0) 3 2 nameF .file) (by decide) (by decide) (by decide)
  revert p
  decide

end BarryOS.Fs.Vfs
