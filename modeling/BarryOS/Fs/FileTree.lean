import BarryOS.Fs.Diskfs
import BarryOS.Fs.RamfsIsolation

/-!
# The file tree

What a user of the filesystem sees of it: from the root down, names, kinds, owners and
modes, the order of the entries, and the contents of files. `collect_order` puts this
tree in level order, and two filesystems look the same exactly if their rows do.
-/

namespace BarryOS.Fs

open Lib Option

/-- What there is to see of one vnode. A directory has no contents. -/
structure Entry where
  name : Bytes
  vtype : VnodeType
  perm : Perm
  content : Bytes
  deriving DecidableEq, Repr

namespace Ramfs

/-- The contents of a file, as `read_file` gives them to a buffer of the largest size. -/
def entryOf (s : Ramfs) (id : UInt64) (v : Vnode) : Entry :=
  ⟨v.name, v.vtype, ⟨v.uid, v.gid, v.mode⟩,
    if v.vtype = .file then s.readFile id maxFileSize else []⟩

def entry (s : Ramfs) (id : UInt64) : Option Entry := (s.vfs.node id).map (s.entryOf id)

def children (s : Ramfs) (id : UInt64) : List UInt64 :=
  ((s.vfs.node id).map Vnode.childIds).getD []

/-- The tree below the root, down to depth `n`. -/
def tree (s : Ramfs) (n : Nat) : Branching Entry := grow s.entry s.children n rootId

end Ramfs

/-- Two filesystems hold the same tree. -/
def SameTree (s r : Ramfs) : Prop := ∀ n, s.tree n = r.tree n

/-! ## Calls -/

/-- The calls on the RAM filesystem and on the VFS below it. -/
inductive FsOp where
  | ramfs (op : RamfsOp)
  | setMode (id : UInt64) (mode : UInt16)
  | setOwner (id : UInt64) (uid gid : UInt32)
  /-- `vfs::unlink` alone, which gives no data back. -/
  | unlinkVnode (parentId : UInt64) (name : Str)
  | reset
  deriving DecidableEq, Repr

def Ramfs.fsStep (s : Ramfs) : FsOp → Ramfs
  | .ramfs op => s.step op
  | .setMode id mode => { s with vfs := s.vfs.setMode id mode }
  | .setOwner id uid gid => { s with vfs := s.vfs.setOwner id uid gid }
  | .unlinkVnode parentId name => { s with vfs := (s.vfs.unlink parentId name).2 }
  | .reset => { s with vfs := Vfs.reset }

/-- Neither the id counter nor the bump pointer wraps in a call. -/
def Ramfs.FsAdmits (s : Ramfs) : FsOp → Prop
  | .ramfs op => s.Admits op
  | _ => True

variable {l : Ledger}

theorem Stored.modify (h : Stored l) (id : UInt64) (f : Vnode → Vnode)
    (keeps : ∀ v, (f v).id = v.id) (links : ∀ v, Vfs.SameLinks (f v) v) (data : ∀ v, SameData (f v) v) :
    Stored ⟨{ l.fs with vfs := l.fs.vfs.modify id f }, l.content⟩ := by
  refine h.of_rest (h.linked.modify id f keeps links) h.tidy rfl ?_
  intro j v hv
  have hv := (Vfs.node_modify l.fs.vfs id f keeps j).symm.trans hv
  right
  split at hv
  next here =>
    obtain ⟨w, hw, rfl⟩ := map_eq_some_iff.mp hv
    rw [← here] at hw
    exact ⟨w, hw, data w, rfl, h.held hw⟩
  · exact ⟨v, hv, ⟨rfl, rfl, rfl⟩, rfl, h.held hv⟩

theorem Stored.setOwner (h : Stored l) (id : UInt64) (uid gid : UInt32) :
    Stored ⟨{ l.fs with vfs := l.fs.vfs.setOwner id uid gid }, l.content⟩ :=
  h.modify id (fun v => { v with uid := uid, gid := gid }) (fun _ => rfl)
    (fun _ => ⟨rfl, rfl, rfl, rfl⟩) fun _ => ⟨rfl, rfl, rfl⟩

theorem Stored.setMode (h : Stored l) (id : UInt64) (mode : UInt16) :
    Stored ⟨{ l.fs with vfs := l.fs.vfs.setMode id mode }, l.content⟩ :=
  h.modify id (fun v => { v with mode := mode }) (fun _ => rfl)
    (fun _ => ⟨rfl, rfl, rfl, rfl⟩) fun _ => ⟨rfl, rfl, rfl⟩

theorem Stored.unlinkVnode (h : Stored l) (parentId : UInt64) (name : Str) :
    Stored ⟨{ l.fs with vfs := (l.fs.vfs.unlink parentId name).2 }, l.content⟩ := by
  refine h.of_rest (h.linked.unlink parentId name) h.tidy rfl ?_
  intro id v hv
  right
  rcases Vfs.unlink_cases h.linked.toTable parentId name with
    ⟨_, same⟩ | ⟨_, _, _, _, _, _, _, _, nodes⟩
  · have hv : (l.fs.vfs.unlink parentId name).2.node id = some v := hv
    rw [same] at hv
    exact ⟨v, hv, ⟨rfl, rfl, rfl⟩, rfl, h.held hv⟩
  obtain ⟨_, w, hw, rfl⟩ := Vfs.unlinkedNode_some ((nodes id).symm.trans hv)
  exact ⟨w, hw, ⟨rfl, rfl, rfl⟩, rfl, h.held hw⟩

/-- Every vnode holds its data, whatever the data should be. -/
def Ramfs.Sound (s : Ramfs) : Prop := ∃ content, Stored ⟨s, content⟩

theorem Ramfs.Sound.fsStep {s : Ramfs} {op : FsOp} (h : s.Sound) (admits : s.FsAdmits op) : (s.fsStep op).Sound := by
  obtain ⟨content, stored⟩ := h
  cases op with
  | ramfs op =>
    have kept : Stored (Ledger.step ⟨s, content⟩ op) := stored.step admits
    exact ⟨_, kept⟩
  | setMode id mode => exact ⟨content, stored.setMode id mode⟩
  | setOwner id uid gid => exact ⟨content, stored.setOwner id uid gid⟩
  | unlinkVnode parentId name => exact ⟨content, stored.unlinkVnode parentId name⟩
  | reset => exact ⟨_, Stored.reset stored.tidy⟩

/-- Every filesystem that calls make from boot, short of a wrap, is sound. -/
theorem sound_of_admits {ops : List FsOp} (admitted : Along Ramfs.fsStep Ramfs.FsAdmits Ramfs.boot ops) :
    (run Ramfs.fsStep Ramfs.boot ops).Sound :=
  admitted.invariant Ramfs.Sound (fun _ _ h ok => h.fsStep ok) ⟨_, Stored.boot⟩

/-! ## Level order -/

namespace Vfs

theorem Linked.listedIds {t : Vfs} (h : t.Linked) {id : UInt64} {v : Vnode}
    (hv : t.node id = some v) : listedIds t id = v.childIds := by
  have exist : (v.childIds.filterMap t.node).map Vnode.id = v.childIds := by
    have each := fun c hc => (h.listed hv c hc).2
    generalize v.childIds = cs at each
    induction cs with
    | nil => rfl
    | cons c cs ih =>
      obtain ⟨w, hw, _⟩ := each c (by simp)
      rw [List.filterMap_cons_some hw, List.map_cons, (node_id hw).1, ih fun d hd => each d (List.mem_cons_of_mem _ hd)]
  have few := h.few hv
  unfold Fs.listedIds readDir
  simp only [hv]
  rw [List.map_take, List.map_map]
  show ((v.childIds.filterMap t.node).map Vnode.id).take maxChildren = v.childIds
  rw [exist]
  exact List.take_of_length_le few

theorem Linked.rooted {t : Vfs} (h : t.Linked) :
    Rooted (Fs.listedIds t) t.getParent rootId (fun id => t.node id ≠ none) maxVnodes := by
  refine ⟨?_, ?_, ?_, ?_⟩
  · obtain ⟨r, hr, _⟩ := h.root
    rw [hr]
    exact some_ne_none r
  · intro x y used listed
    obtain ⟨v, hv⟩ := ne_none_iff_exists'.mp used
    rw [h.listedIds hv] at listed
    obtain ⟨_, w, hw, parent⟩ := h.listed hv y listed
    refine ⟨by simp [hw], by simp [getParent, hw, parent], ?_⟩
    rintro rfl
    exact h.root_not_listed hv listed
  · intro x used
    obtain ⟨v, hv⟩ := ne_none_iff_exists'.mp used
    rw [h.listedIds hv]
    exact h.nodup hv
  · intro l nodup used
    -- Ids in use are ids of the 64 records.
    have inTable : l ⊆ t.vnodes.map Vnode.id := by
      intro x hx
      obtain ⟨v, hv⟩ := ne_none_iff_exists'.mp (used x hx)
      exact List.mem_map.mpr ⟨v, node_mem hv, (node_id hv).1⟩
    have := (nodup.subperm inTable).length_le
    rwa [List.length_map, t.slots] at this

end Vfs

/-- A vnode's entry, with a blank one where there is no vnode. -/
def Ramfs.entryAt (s : Ramfs) (id : UInt64) : Entry := (s.entry id).getD ⟨[], .file, ⟨0, 0, 0⟩, []⟩

/-- The tree in the order of `collect_order`. -/
def Ramfs.rows (s : Ramfs) : List (Row Entry) :=
  numbered s.entryAt s.vfs.getParent rootId (collectOrder s.vfs)

section Rows

variable {s : Ramfs}

theorem collectOrder_traversal (h : s.vfs.Linked) :
    Traversal (listedIds s.vfs) s.vfs.getParent rootId (collectOrder s.vfs) ∧
      ∀ id ∈ collectOrder s.vfs, s.vfs.node id ≠ none :=
  levelLoop_traversal h.rooted

theorem rows_levelOrder (h : s.vfs.Linked) : LevelOrder s.rows :=
  (collectOrder_traversal h).1.levelOrder _

theorem tree_rows (h : s.vfs.Linked) (n : Nat) : s.tree n = grow (labelAt s.rows) (kidsAt s.rows) n 0 := by
  obtain ⟨walk, used⟩ := collectOrder_traversal h
  have labels : ∀ id ∈ collectOrder s.vfs, s.entry id = some (s.entryAt id) := by
    intro id hid
    obtain ⟨v, hv⟩ := ne_none_iff_exists'.mp (used id hid)
    simp [Ramfs.entryAt, Ramfs.entry, hv]
  have kids : s.tree n = grow s.entry (listedIds s.vfs) n rootId := by
    refine grow_map id (fun id => s.vfs.node id ≠ none) (fun _ _ => rfl) ?_ ?_ n h.rooted.start
    · intro id used
      obtain ⟨v, hv⟩ := ne_none_iff_exists'.mp used
      rw [h.listedIds hv]
      simp [Ramfs.children, hv]
    · intro id used c hc
      exact (h.rooted.below used hc).1
  rw [kids]
  exact walk.grow_numbered labels n

/-- Filesystems with the same tree have the same rows. -/
theorem sameTree_iff_rows (h : s.vfs.Linked) {r : Ramfs} {rows : List (Row Entry)}
    (order : LevelOrder rows) (hr : ∀ n, r.tree n = grow (labelAt rows) (kidsAt rows) n 0) :
    SameTree s r ↔ s.rows = rows := by
  constructor
  · intro same
    refine (rows_levelOrder h).unique order ?_
    intro n
    rw [← tree_rows h, ← hr]
    exact same n
  · intro same n
    rw [tree_rows h, hr, same]

end Rows

end BarryOS.Fs
