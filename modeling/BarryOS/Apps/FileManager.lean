import BarryOS.Apps.TerminalPaths
import BarryOS.Fs.PathNames

/-!
# The file manager (apps/filemgr.rs)

A window on one directory: rows to select and open, a toolbar, and a line in which a name is
typed. `Files` has the statics of the module beside the shell's state (the tree, the accounts and
the editor). A click comes as the button or the row that it hit; the geometry and the drawing of the
window are left out.

What the file manager does to the tree it does through three calls of the VFS, one for each of its
events at most (`request`).
-/

namespace BarryOS.Apps

open Lib Fs

inductive FileMode where
  | browse | newFile | newDir | rename
  deriving DecidableEq, Repr

/-- Rows of the window. -/
def maxRows : Nat := 16

def keyEnter : UInt8 := 0x0A
def keyBackspace : UInt8 := 0x08
def keyEsc : UInt8 := 0x1B

/-- The file manager. `selected` is a row, the one of `..` included. -/
structure Files where
  shell : Shell
  cwd : UInt64 := rootId
  selected : Option Nat := none
  mode : FileMode := .browse
  rows : List DirEntry := []
  hasParent : Bool := false
  /-- The name being typed. -/
  input : Bytes := []
  status : String := ""

namespace Files

def tree (f : Files) : Vfs := f.shell.fs.vfs

def setStatus (f : Files) (msg : String) : Files := { f with status := msg }

def refresh (f : Files) : Files :=
  { f with rows := f.tree.readDir f.cwd maxRows, hasParent := f.cwd ≠ rootId }

def displayRows (f : Files) : Nat := f.rows.length + if f.hasParent then 1 else 0

/-- The entry of a row, or none for the row of `..`. -/
def entryIndex (f : Files) (row : Nat) : Option Nat :=
  if f.hasParent then if row = 0 then none else some (row - 1) else some row

def entry (f : Files) (row : Nat) : Option DirEntry := (f.entryIndex row).bind fun i => f.rows[i]?

def selectedEntry (f : Files) : Option DirEntry := f.selected.bind f.entry

def navigateTo (f : Files) (id : UInt64) : Files := refresh { f with cwd := id, selected := none }

def goUp (f : Files) : Files :=
  if f.tree.getParent f.cwd ≠ 0 then f.navigateTo (f.tree.getParent f.cwd) else f

def openSelected (f : Files) : Files :=
  match f.selectedEntry with
  | none => f.setStatus "nothing selected"
  | some e =>
    if e.vtype = .dir then
      if !f.shell.allowed e.id permX then f.setStatus "permission denied" else f.navigateTo e.id
    else if !f.shell.allowed e.id permR then f.setStatus "permission denied (read)"
    else setStatus { f with shell := f.shell.openFile e.id } "opened in editor"

def deleteSelected (f : Files) : Files :=
  if !f.shell.mayModifyDir f.cwd then f.setStatus "permission denied"
  else
    match f.selectedEntry with
    | none => f.setStatus "nothing selected"
    | some e =>
      match Str.ofUtf8 (f.tree.getName e.id) with
      | none => f
      | some name =>
        let (done, fs) := f.shell.fs.unlink f.cwd name
        let f := { f with shell := { f.shell with fs := fs } }
        refresh (if done then { f.setStatus "deleted" with selected := none }
          else f.setStatus "delete failed (not empty?)")

def begin (f : Files) (mode : FileMode) (prompt : String) : Files :=
  setStatus { f with mode := mode, input := [] } prompt

/-- The end of an input line. -/
def browse (f : Files) : Files := { f with mode := .browse, input := [] }

/-- The call that the input line asks for. -/
def commitName (f : Files) (name : Str) : Files :=
  match f.mode with
  | .newFile =>
    let (id, fs) := Ramfs.createFileIn f.shell.accounts.currentIds f.shell.fs f.cwd name
    setStatus { f with shell := { f.shell with fs := fs } }
      (if id ≠ 0 then "file created" else "could not create file")
  | .newDir =>
    let (id, fs) := Ramfs.createDirIn f.shell.accounts.currentIds f.shell.fs f.cwd name
    setStatus { f with shell := { f.shell with fs := fs } }
      (if id ≠ 0 then "folder created" else "could not create folder")
  | .rename =>
    match f.selectedEntry with
    | none => f
    | some e =>
      match Str.ofUtf8 (f.tree.getName e.id) with
      | none => f
      | some old =>
        let (done, fs) := f.shell.fs.rename f.cwd old name
        setStatus { f with shell := { f.shell with fs := fs } } (if done then "renamed" else "rename failed")
  | .browse => f

def commitInput (f : Files) : Files :=
  if f.mode = .browse then f
  else
    match Str.ofUtf8 f.input with
    | none => f.setStatus "invalid name"
    | some name =>
      if !f.shell.mayModifyDir f.cwd then (f.setStatus "permission denied").browse
      else ((f.commitName name).browse).refresh

inductive Button where
  | newFile | newFolder | rename | delete | open
  deriving DecidableEq, Repr

def onButton (f : Files) : Button → Files
  | .newFile => f.begin .newFile "new file name:"
  | .newFolder => f.begin .newDir "new folder name:"
  | .rename =>
    if f.selectedEntry.isSome then f.begin .rename "new name:" else f.setStatus "select something to rename"
  | .delete => f.deleteSelected
  | .open => f.openSelected

/-- The first click on a row selects it, the second opens it. -/
def onRow (f : Files) (row : Nat) : Files :=
  if row ≥ maxRows ∨ row ≥ f.displayRows then f
  else if f.selected = some row then if f.entryIndex row = none then f.goUp else f.openSelected
  else setStatus { f with selected := some row } ""

def handleKey (f : Files) (key : UInt8) : Files :=
  if f.mode = .browse then if key = keyEnter then f.openSelected else f
  else if key = keyEsc then setStatus { f with mode := .browse } "cancelled"
  else if key = keyEnter then f.commitInput
  else if key = keyBackspace then { f with input := f.input.dropLast }
  else if 0x20 ≤ key ∧ key < 0x7F then
    if f.input.length < maxName then { f with input := f.input ++ [key] } else f
  else f

end Files

/-! ## Events -/

/-- What happens to the tree: calls of other programs, and the user of the file manager. -/
inductive FilesEvent where
  | vfs (op : VfsOp)
  | key (key : UInt8)
  | button (b : Files.Button)
  | row (row : Nat)
  deriving DecidableEq, Repr

namespace Files

def step (f : Files) : FilesEvent → Files
  | .vfs op => { f with shell := { f.shell with fs := { f.shell.fs with vfs := f.tree.step op } } }
  | .key key => f.handleKey key
  | .button b => f.onButton b
  | .row row => f.onRow row

/-- The call of the VFS behind an input line. -/
def nameRequest (f : Files) (name : Str) : Option VfsOp :=
  match f.mode with
  | .newFile => some (.createFile f.shell.accounts.currentIds f.cwd name)
  | .newDir => some (.createDir f.shell.accounts.currentIds f.cwd name)
  | .rename =>
    (f.selectedEntry.bind fun e => Str.ofUtf8 (f.tree.getName e.id)).map fun old => .rename f.cwd old name
  | .browse => none

/-- The call of the VFS that an event ends in. -/
def request (f : Files) : FilesEvent → Option VfsOp
  | .vfs op => some op
  | .key key =>
    if f.mode ≠ .browse ∧ key = keyEnter ∧ f.shell.mayModifyDir f.cwd then (Str.ofUtf8 f.input).bind f.nameRequest
    else none
  | .button .delete =>
    if f.shell.mayModifyDir f.cwd then
      (f.selectedEntry.bind fun e => Str.ofUtf8 (f.tree.getName e.id)).map (.unlink f.cwd)
    else none
  | _ => none

/-- The tree after a request. -/
def served (t : Vfs) : Option VfsOp → Vfs
  | some op => t.step op
  | none => t

/-! ## The tree changes by requests only -/

variable (f : Files)

theorem tree_goUp : f.goUp.tree = f.tree := by
  unfold goUp
  split <;> rfl

theorem openFile_fs (s : Shell) (id : UInt64) : (s.openFile id).fs = s.fs := by
  unfold Shell.openFile
  split <;> rfl

theorem tree_openSelected : f.openSelected.tree = f.tree := by
  unfold openSelected
  split
  · rfl
  rename_i e _
  split
  · split <;> rfl
  split
  · rfl
  show (f.shell.openFile e.id).fs.vfs = f.shell.fs.vfs
  rw [openFile_fs]

theorem tree_commitName (name : Str) : (f.commitName name).tree = served f.tree (f.nameRequest name) := by
  unfold commitName nameRequest
  cases f.mode with
  | browse => rfl
  | newFile => rfl
  | newDir => rfl
  | rename =>
    cases f.selectedEntry with
    | none => rfl
    | some e =>
      dsimp only [Option.bind_some]
      cases Str.ofUtf8 (f.tree.getName e.id) <;> rfl

theorem tree_commitInput (typing : f.mode ≠ .browse) : f.commitInput.tree =
    served f.tree (if f.shell.mayModifyDir f.cwd then (Str.ofUtf8 f.input).bind f.nameRequest else none) := by
  unfold commitInput
  rw [if_neg typing]
  cases Str.ofUtf8 f.input with
  | none =>
    dsimp only [Option.bind_none]
    rw [ite_self]
    rfl
  | some name =>
    cases f.shell.mayModifyDir f.cwd with
    | false => rfl
    | true => exact f.tree_commitName name

theorem tree_handleKey (key : UInt8) : (f.handleKey key).tree = served f.tree (f.request (.key key)) := by
  unfold handleKey request
  by_cases browsing : f.mode = .browse
  · simp only [browsing, if_true]
    split
    · exact f.tree_openSelected
    · rfl
  rw [if_neg browsing]
  by_cases enter : key = keyEnter
  · have noEsc : key ≠ keyEsc := by rw [enter]; decide
    rw [if_neg noEsc, if_pos enter, f.tree_commitInput browsing]
    simp [browsing, enter]
  simp only [enter, false_and, and_false, if_false]
  split
  · rfl
  split
  · rfl
  split
  · split <;> rfl
  · rfl

theorem tree_deleteSelected : f.deleteSelected.tree = served f.tree (f.request (.button .delete)) := by
  unfold deleteSelected request
  cases f.shell.mayModifyDir f.cwd with
  | false => rfl
  | true =>
    cases f.selectedEntry with
    | none => rfl
    | some e =>
      dsimp only [Option.bind_some]
      cases Str.ofUtf8 (f.tree.getName e.id) with
      | none => rfl
      | some name =>
        have vfs := (Shell.ramfs_unlink f.shell.fs f.cwd name).2
        cases h : (f.shell.fs.unlink f.cwd name).1 <;> simpa [h, tree, served, Vfs.step, setStatus, refresh] using vfs

theorem tree_onButton (b : Button) : (f.onButton b).tree = served f.tree (f.request (.button b)) := by
  cases b with
  | newFile => rfl
  | newFolder => rfl
  | rename =>
    unfold onButton
    dsimp only
    split <;> rfl
  | delete => exact f.tree_deleteSelected
  | «open» => exact f.tree_openSelected

theorem tree_onRow (row : Nat) : (f.onRow row).tree = f.tree := by
  unfold onRow
  split
  · rfl
  split
  · split
    · exact f.tree_goUp
    · exact f.tree_openSelected
  · rfl

/-- What the file manager does to the tree is what the VFS does for its request. -/
theorem tree_step (e : FilesEvent) : (f.step e).tree = served f.tree (f.request e) := by
  cases e with
  | vfs op => rfl
  | key key => exact f.tree_handleKey key
  | button b => exact f.tree_onButton b
  | row row => exact f.tree_onRow row

/-! ## Paths -/

/-- The path of every node leads to it. -/
def PathsLead (f : Files) : Prop :=
  ∀ v ∈ f.tree.vnodes, v.id ≠ 0 → ∀ room ≥ Vfs.pathRoom,
    ∃ path : Str, path.bytes = f.tree.pathOf v.id room ∧ f.tree.resolve path = v.id

/-- The call that an event ends in names its node with a component of a path, less than sixteen levels below the
root. -/
def Names (f : Files) (e : FilesEvent) : Prop := ∀ op ∈ f.request e, Vfs.Names f.tree op

theorem nameable_step (e : FilesEvent) (h : f.tree.Nameable) (names : f.Names e) : (f.step e).tree.Nameable := by
  rw [tree_step]
  cases asked : f.request e with
  | none => exact h
  | some op => exact h.step (names op asked)

theorem pathsLead_of_nameable {f : Files} (h : f.tree.Nameable) : f.PathsLead := by
  intro v hv used room large
  exact h.resolve_pathOf (h.node_of_mem hv used) large

/-- In every run from an empty tree in which names are components of paths, and nodes are made less than sixteen
levels below the root and in directories in use, the path of every node leads to it. -/
theorem pathsLead_of_names (f : Files) (start : f.tree = Vfs.reset) (es : List FilesEvent)
    (names : Along step Names f es) : Throughout step PathsLead f es :=
  (names.throughout (fun f => f.tree.Nameable) nameable_step (by rw [start]; exact Vfs.Nameable.reset)).mono
    fun _ => pathsLead_of_nameable

/-- The file manager on an empty tree, as root. -/
def fresh : Files where
  shell :=
    { fs := Ramfs.boot, accounts := ⟨[], uidRoot⟩, cwd := rootId, editor := none, frames := ⟨fun _ => false, 0, 0⟩ }

theorem pathsLead_to_nested_file : Throughout step PathsLead fresh
    [.vfs (.createDir (0, 0) rootId Vfs.nameD), .vfs (.createFile (0, 0) 2 Vfs.nameF)] := by
  refine pathsLead_of_names fresh rfl _ ⟨?_, ?_, trivial⟩
  · rintro op ⟨⟩
    exact ⟨⟨fun _ => by decide, fun _ _ => by decide⟩, by decide, 0, by decide, rfl⟩
  · rintro op ⟨⟩
    exact ⟨⟨fun _ => by decide, fun _ _ => by decide⟩, by decide, 1, by decide, by decide +kernel⟩

/-- A file is named `a/b`. -/
def slashNamed : List FilesEvent := [.button .newFile, .key 0x61, .key slash, .key 0x62, .key keyEnter]

/-- The path of the file is `/a/b`, and there is no `/a`. -/
theorem slash_in_name_misleads : ¬ ∀ (f : Files), f.tree = Vfs.reset →
    ∀ es : List FilesEvent, Throughout step PathsLead f es := by
  intro always
  have lead := (always fresh rfl slashNamed).last
  obtain ⟨path, bytes, leads⟩ := lead (Vfs.newNode (0, 0) 2 rootId ⟨[0x61, slash, 0x62], by decide⟩ .file)
    (by decide +kernel) (by decide) Vfs.pathRoom le_rfl
  have spelt : (run step fresh slashNamed).tree.pathOf 2 Vfs.pathRoom = [slash, 0x61, slash, 0x62] := by decide +kernel
  have same : path = ⟨[slash, 0x61, slash, 0x62], by decide⟩ := Str.ext_bytes (bytes.trans spelt)
  rw [same] at leads
  revert leads
  decide +kernel

end Files

end BarryOS.Apps
