import BarryOS.Fs.Vfs
import BarryOS.Lib.Str

/-!
# Paths (fs/vfs.rs)

`resolve`, `resolve_from`, `split_parent` and `path_of`. A path is cut at its slashes and followed
piece by piece; an empty piece and `.` stay, `..` goes up, and a name is looked up.
-/

namespace BarryOS.Fs

open Lib

def slash : UInt8 := 0x2F

theorem slash_ascii : slash < 0x80 := by
  decide

/-- `path.split('/')`. -/
def pieces (path : Str) : List Str := path.split slash slash_ascii

/-- `path.starts_with('/')`. -/
def isAbsolute (path : Str) : Bool := path.bytes.head? = some slash

def isDot (part : Str) : Bool := part.bytes = [0x2E]

def isDotDot (part : Str) : Bool := part.bytes = [0x2E, 0x2E]

namespace Vfs

/-- Up, but never above the root. -/
def above (t : Vfs) (cur : UInt64) : UInt64 := if t.getParent cur ≠ 0 then t.getParent cur else cur

/-- The loop of `resolve_from`. -/
def follow (t : Vfs) : UInt64 → List Str → UInt64
  | cur, [] => cur
  | cur, part :: rest =>
    if part.bytes = [] ∨ isDot part then follow t cur rest
    else if isDotDot part then follow t (t.above cur) rest
    else
      let next := t.lookup cur part
      if next = 0 then 0 else follow t next rest

/-- Where a path starts: an absolute one at the root. -/
def origin (cwd : UInt64) (path : Str) : UInt64 := if isAbsolute path then rootId else cwd

/-- Resolve an absolute path to a vnode id, or 0. -/
def resolve (t : Vfs) (path : Str) : UInt64 := t.follow rootId (pieces path)

/-- Resolve a path relative to `cwd`. -/
def resolveFrom (t : Vfs) (cwd : UInt64) (path : Str) : UInt64 := t.follow (origin cwd path) (pieces path)

/-- The slices that `split_parent` cuts a path into, without the slashes at its end. -/
def cutName (path : Str) : Str × Str :=
  let trimmed := path.trimEnd slash slash_ascii
  (trimmed.rsplitOnce slash slash_ascii).getD (Str.empty, trimmed)

/-- The directory that `split_parent` takes an entry to be in. -/
def parentOf (t : Vfs) (cwd : UInt64) (dirPart : Str) : UInt64 :=
  if dirPart.bytes = [] then cwd else t.resolveFrom cwd dirPart

/-- Split a path into the parent directory and the final component. -/
def splitParent (t : Vfs) (cwd : UInt64) (path : Str) : Option (UInt64 × Str) :=
  if (path.trimEnd slash slash_ascii).bytes = [] then none
  else
    let (dirPart, name) := cutName path
    if name.bytes = [] ∨ name.bytes.length > maxName then none
    else
      let parent := t.parentOf cwd dirPart
      if parent = 0 ∧ dirPart.bytes ≠ [] then none
      else if t.getType parent ≠ some .dir then none
      else some (parent, name)

/-- The ids that `path_of` has room for on its way up. -/
def chainMax : Nat := 16

/-- The walk up of `path_of`, with room for `left` ids: a node, then its parent, up to the root. -/
def climb (t : Vfs) : (left : Nat) → (cur : UInt64) → List UInt64
  | 0, _ => []
  | left + 1, cur => if cur = 0 ∨ cur = rootId then [] else cur :: climb t left (t.getParent cur)

/-- The names of a walk, the last one first, each behind a slash. -/
def spell (t : Vfs) (chain : List UInt64) : Bytes := chain.reverse.flatMap fun c => slash :: t.getName c

/-- The absolute path of a vnode; what does not fit in the `room` of the buffer is cut off. -/
def pathOf (t : Vfs) (id : UInt64) (room : Nat) : Bytes :=
  let chain := t.climb chainMax id
  if chain = [] then [slash].take room else (t.spell chain).take room

end Vfs

end BarryOS.Fs
