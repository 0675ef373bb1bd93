import BarryOS.Apps.TerminalSearch
import BarryOS.Fs.PathSplit

/-!
# What a path denotes to a command

`touch`, `mkdir` and `rm` go to the entry that `split_parent` gives them, and `mv` to two of them. That
is the entry of the path, unless the path is `/name` and the working directory is not the root. For a
directory to move into, `mv` puts the path together itself, and cuts it at 96 octets.
-/

namespace BarryOS.Apps

open Lib Fs Compat List

namespace Shell

/-- The path leads to a node that was not there before. -/
def Makes (s s' : Shell) (path : Str) : Prop :=
  s'.resolveFrom path ≠ 0 ∧ s.fs.vfs.node (s'.resolveFrom path) = none

/-- The path in a directory under the old name. -/
def joined (source target : Str) : Bytes := (target.trimEnd slash slash_ascii).bytes ++ slash :: baseName source

/-- The whole path fits in the buffer, and is not `/name` outside of the root. -/
structure Aimed (s : Shell) (source target : Str) : Prop where
  fits : s.Into target → (joined source target).length ≤ joinedMax
  home : OneSlash (s.mvTarget source target) → s.cwd = rootId

def newName (s : Shell) (source target : Str) : Str :=
  if s.Into target then (Vfs.cutName source).2 else (Vfs.cutName target).2

section

variable {s : Shell} {path : Str} {parent : UInt64} {name : Str}

section

variable (split : s.splitParent path = some (parent, name)) (plain : Vfs.Plain name)
  (home : OneSlash path → s.cwd = rootId) (placed : s.fs.vfs.Placed) (room : s.fs.vfs.CountsOn parent name)

include split plain home placed room

end

/-- `ramfs::unlink` takes out of the tree what `vfs::unlink` does. -/
theorem ramfs_unlink (fs : Ramfs) (parent : UInt64) (name : Str) :
    (fs.unlink parent name).1 = (fs.vfs.unlink parent name).1 ∧
      (fs.unlink parent name).2.vfs = (fs.vfs.unlink parent name).2 := by
  unfold Ramfs.unlink
  dsimp only
  split
  next none => simp [Vfs.unlink, none]
  · cases (fs.vfs.unlink parent name).1 <;> exact ⟨rfl, rfl⟩

end

/-! ## `mv` -/

section

variable {s : Shell} {source target : Str}

end

end Shell

end BarryOS.Apps
