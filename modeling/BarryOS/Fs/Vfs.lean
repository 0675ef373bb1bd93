import BarryOS.Lib.SlotTable
import BarryOS.Lib.Utf8

/-!
# The virtual file system (fs/vfs.rs)

A flat table of 64 vnodes, each with a parent link and a short list of child ids; a
slot whose id is 0 is free. A name is kept as the bytes `name[..name_len]` and a child
list as `child_ids[..child_count]`: what stands behind the counts is never read.
Ids are handed out by a 64-bit counter.

The user and group that a new node belongs to (`perm::current_ids`) are an argument.
Messages on the serial line are left out.
-/

namespace BarryOS.Fs

open Lib

inductive VnodeType where
  | file | dir | symlink
  deriving DecidableEq, Repr

def maxName : Nat := 31

/-- Largest single file. -/
def maxFileSize : Nat := 65536

/-- Most children a directory can hold. -/
def maxChildren : Nat := 16

def maxVnodes : Nat := 64

def rootId : UInt64 := 1

/-- `perm::UID_ROOT` and `perm::GID_ROOT`. -/
def uidRoot : UInt32 := 0
def gidRoot : UInt32 := 0

/-- `perm::MODE_FILE`, rw-r--r--. -/
def modeFile : UInt16 := 0o644

/-- `perm::MODE_DIR`, rwxr-xr-x. -/
def modeDir : UInt16 := 0o755

/-- Ownership and permission bits. -/
structure Perm where
  uid : UInt32
  gid : UInt32
  mode : UInt16
  deriving DecidableEq, Repr

/-- A file or a directory; the default is `Vnode::empty()`. -/
structure Vnode where
  id : UInt64 := 0
  vtype : VnodeType := .file
  name : Bytes := []
  size : UInt64 := 0
  parentId : UInt64 := 0
  childIds : List UInt64 := []
  dataOffset : UInt64 := 0
  dataCap : UInt64 := 0
  uid : UInt32 := 0
  gid : UInt32 := 0
  mode : UInt16 := 0
  deriving DecidableEq, Repr

/-- The table and the id counter. -/
structure Vfs where
  vnodes : List Vnode
  slots : vnodes.length = maxVnodes
  nextId : UInt64

/-- One directory entry, for listing. -/
structure DirEntry where
  id : UInt64
  vtype : VnodeType
  size : UInt64
  name : Bytes
  deriving DecidableEq, Repr

/-- `set_name_raw`. -/
def Vnode.setName (v : Vnode) (name : Str) : Vnode :=
  { v with name := name.bytes.take maxName }

namespace Vfs

/-! ## Slots -/

def allocSlot (t : Vfs) : Option Nat := slotOf Vnode.id 0 t.vnodes

def findSlot (t : Vfs) (id : UInt64) : Option Nat :=
  if id = 0 then none else slotOf Vnode.id id t.vnodes

def vnodeAt (t : Vfs) (i : Nat) : Vnode := t.vnodes.getD i {}

def setSlot (t : Vfs) (i : Nat) (v : Vnode) : Vfs :=
  { t with vnodes := t.vnodes.set i v, slots := by rw [List.length_set, t.slots] }

/-- The vnode with an id: `find_slot`, then the record there. -/
def node (t : Vfs) (id : UInt64) : Option Vnode := (t.findSlot id).map t.vnodeAt

/-- `find_slot`, then a change of the record there; nothing if there is none. -/
def modify (t : Vfs) (id : UInt64) (f : Vnode → Vnode) : Vfs :=
  match t.findSlot id with
  | some i => t.setSlot i (f (t.vnodeAt i))
  | none => t

/-! ## Fields -/

def getName (t : Vfs) (id : UInt64) : Bytes := ((t.node id).map Vnode.name).getD []

def getPerm (t : Vfs) (id : UInt64) : Option Perm :=
  (t.node id).map fun v => ⟨v.uid, v.gid, v.mode⟩

def getType (t : Vfs) (id : UInt64) : Option VnodeType := (t.node id).map Vnode.vtype

def getSize (t : Vfs) (id : UInt64) : UInt64 := ((t.node id).map Vnode.size).getD 0

def getDataOffset (t : Vfs) (id : UInt64) : UInt64 := ((t.node id).map Vnode.dataOffset).getD 0

def getCapacity (t : Vfs) (id : UInt64) : UInt64 := ((t.node id).map Vnode.dataCap).getD 0

def getParent (t : Vfs) (id : UInt64) : UInt64 := ((t.node id).map Vnode.parentId).getD 0

section

variable {t : Vfs} {id : UInt64} {v : Vnode} (h : t.node id = some v)

include h

theorem getName_eq : t.getName id = v.name := by simp [getName, h]

theorem getSize_eq : t.getSize id = v.size := by simp [getSize, h]

theorem getDataOffset_eq : t.getDataOffset id = v.dataOffset := by simp [getDataOffset, h]

theorem getCapacity_eq : t.getCapacity id = v.dataCap := by simp [getCapacity, h]

theorem getParent_eq : t.getParent id = v.parentId := by simp [getParent, h]

end

def childCount (t : Vfs) (id : UInt64) : Nat :=
  ((t.node id).map fun v => v.childIds.length).getD 0

def setMode (t : Vfs) (id : UInt64) (mode : UInt16) : Vfs :=
  t.modify id fun v => { v with mode := mode }

def setOwner (t : Vfs) (id : UInt64) (uid gid : UInt32) : Vfs :=
  t.modify id fun v => { v with uid := uid, gid := gid }

/-- Set a vnode's data offset and size; the capacity stays. -/
def setData (t : Vfs) (id offset size : UInt64) : Vfs :=
  t.modify id fun v => { v with dataOffset := offset, size := size }

def setDataFull (t : Vfs) (id offset size cap : UInt64) : Vfs :=
  t.modify id fun v => { v with dataOffset := offset, size := size, dataCap := cap }

/-! ## The tree -/

/-- The root as `init` and `reset` make it. -/
def rootNode : Vnode :=
  { id := rootId, vtype := .dir, name := [0x2F], uid := uidRoot, gid := gidRoot, mode := modeDir }

/-- Clear the table and recreate the root, in slot 0. -/
def reset : Vfs where
  vnodes := rootNode :: List.replicate (maxVnodes - 1) {}
  slots := rfl
  nextId := 2

/-- The child of a directory with a name, or 0. -/
def lookup (t : Vfs) (parentId : UInt64) (name : Str) : UInt64 :=
  match t.node parentId with
  | none => 0
  | some parent =>
    (parent.childIds.find? fun cid => (t.node cid).any fun c => c.name == name.bytes).getD 0

/-- Append a child id to a directory's list. -/
def linkChild (t : Vfs) (parentId childId : UInt64) : Vfs :=
  t.modify parentId fun p =>
    if p.childIds.length < maxChildren then { p with childIds := p.childIds ++ [childId] } else p

/-- Remove a child id from a directory's list, preserving the order of the rest. -/
def unlinkChild (t : Vfs) (parentId childId : UInt64) : Bool × Vfs :=
  match t.node parentId with
  | none => (false, t)
  | some parent =>
    if childId ∈ parent.childIds then
      (true, t.modify parentId fun p => { p with childIds := p.childIds.erase childId })
    else (false, t)

/-- The checks of `create_node` before it takes an id: the parent itself is not looked at. -/
def mayCreate (t : Vfs) (parentId : UInt64) (name : Str) : Bool :=
  !name.bytes.isEmpty && name.bytes.length ≤ maxName && t.lookup parentId name = 0 &&
    t.childCount parentId < maxChildren

/-- The record `create_node` writes. -/
def newNode (ids : UInt32 × UInt32) (id parentId : UInt64) (name : Str) (vtype : VnodeType) :
    Vnode :=
  { Vnode.setName { id := id, vtype := vtype } name with
    parentId := parentId
    uid := ids.1
    gid := ids.2
    mode := if vtype = .dir then modeDir else modeFile }

def createNode (ids : UInt32 × UInt32) (t : Vfs) (parentId : UInt64) (name : Str)
    (vtype : VnodeType) : UInt64 × Vfs :=
  if !t.mayCreate parentId name then (0, t)
  else
    let id := t.nextId
    let t := { t with nextId := t.nextId + 1 }
    match t.allocSlot with
    | none => (0, t)
    | some slot =>
      (id, (t.setSlot slot (newNode ids id parentId name vtype)).linkChild parentId id)

def createFile (ids : UInt32 × UInt32) (t : Vfs) (parentId : UInt64) (name : Str) : UInt64 × Vfs :=
  createNode ids t parentId name .file

def createDir (ids : UInt32 × UInt32) (t : Vfs) (parentId : UInt64) (name : Str) : UInt64 × Vfs :=
  createNode ids t parentId name .dir

/-- List a directory's children, at most as many as `out` has room for. -/
def readDir (t : Vfs) (id : UInt64) (out : Nat) : List DirEntry :=
  match t.node id with
  | none => []
  | some dir =>
    ((dir.childIds.filterMap t.node).map fun c =>
      (⟨c.id, c.vtype, c.size, c.name.take maxName⟩ : DirEntry)).take out

/-- Delete a file, or an empty directory. -/
def unlink (t : Vfs) (parentId : UInt64) (name : Str) : Bool × Vfs :=
  let id := t.lookup parentId name
  if id = 0 then (false, t)
  else if t.getType id = some .dir ∧ t.childCount id > 0 then (false, t)
  else
    let (found, t) := t.unlinkChild parentId id
    if !found then (false, t)
    else
      match t.findSlot id with
      | some slot => (true, t.setSlot slot {})
      | none => (true, t)

/-- Rename a child of a directory. -/
def rename (t : Vfs) (parentId : UInt64) (old new : Str) : Bool × Vfs :=
  if new.bytes.isEmpty || new.bytes.length > maxName then (false, t)
  else
    let id := t.lookup parentId old
    if id = 0 then (false, t)
    else
      let other := t.lookup parentId new
      if other ≠ 0 ∧ other ≠ id then (false, t)
      else
        match t.findSlot id with
        | some slot => (true, t.setSlot slot ((t.vnodeAt slot).setName new))
        | none => (false, t)

end Vfs

/-! ## Calls -/

/-- The calls that change the tree. -/
inductive VfsOp where
  | createFile (ids : UInt32 × UInt32) (parentId : UInt64) (name : Str)
  | createDir (ids : UInt32 × UInt32) (parentId : UInt64) (name : Str)
  | unlink (parentId : UInt64) (name : Str)
  | rename (parentId : UInt64) (old new : Str)
  | reset
  deriving DecidableEq, Repr

def Vfs.step (t : Vfs) : VfsOp → Vfs
  | .createFile ids parentId name => (Vfs.createFile ids t parentId name).2
  | .createDir ids parentId name => (Vfs.createDir ids t parentId name).2
  | .unlink parentId name => (t.unlink parentId name).2
  | .rename parentId old new => (t.rename parentId old new).2
  | .reset => Vfs.reset

end BarryOS.Fs
