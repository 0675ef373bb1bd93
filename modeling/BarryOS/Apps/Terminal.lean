import BarryOS.Compat.PeLoader
import BarryOS.Fs.Path
import BarryOS.Fs.Perm
import BarryOS.Fs.Ramfs
import BarryOS.Lib.Text

/-!
# The shell (apps/terminal.rs)

The commands that work on files, and scripts of them. A command answers with what it prints
(`Reply`); how that is laid out on the screen is left out, and so are the commands that touch
neither the file system nor the working directory (`Command.other`), among them `su`, which only
asks for a password. What a program does while it runs is left to the environment.

A path is a `&str` of any length. Lines come from the keyboard or from a script.
-/

namespace BarryOS.Apps

open Lib Fs Mem Compat

/-- The width of the screen buffer; a script line has to be shorter. -/
def cols : Nat := 118

def maxRunDepth : Nat := 3

/-- What the commands read and change. -/
structure Shell where
  fs : Ramfs
  accounts : Accounts
  cwd : UInt64
  /-- The file in the editor, with the text that was read from it. -/
  editor : Option (UInt64 × Bytes)
  frames : Frames

/-- What a command prints. -/
inductive Reply where
  | err (text : String)
  | ok (text : String)
  | moved (id : UInt64)
  | entries (list : List DirEntry)
  | plain (mode : UInt16) (path : Str)
  | text (lines : List Bytes)
  | opened (readOnly : Bool)
  | stat (id : UInt64) (vtype : VnodeType) (perm : Perm) (size : UInt64)
  | exited (r : Pe.RunResult)
  | cannotRun (why : Pe.Halt)
  deriving DecidableEq

/-- The command did what it was asked to. -/
def Reply.succeeded : Reply → Bool
  | err _ | cannotRun _ => false
  | _ => true

namespace Reply

@[simp] theorem succeeded_err (text : String) : (err text).succeeded = false := rfl
@[simp] theorem succeeded_ok (text : String) : (ok text).succeeded = true := rfl
@[simp] theorem succeeded_entries (list : List DirEntry) : (entries list).succeeded = true := rfl
@[simp] theorem succeeded_plain (mode : UInt16) (path : Str) : (plain mode path).succeeded = true := rfl
@[simp] theorem succeeded_text (lines : List Bytes) : (Reply.text lines).succeeded = true := rfl
@[simp] theorem succeeded_opened (readOnly : Bool) : (opened readOnly).succeeded = true := rfl
@[simp] theorem succeeded_cannotRun (why : Pe.Halt) : (cannotRun why).succeeded = false := rfl

theorem succeeded_check {p : Prop} [Decidable p] {text : String} {r : Reply} :
    (if p then err text else r).succeeded = true ↔ ¬ p ∧ r.succeeded = true := by
  split
  · simp_all
  · simp_all

theorem succeeded_check_fst {p : Prop} [Decidable p] {text : String} {σ : Type} {u : σ} {r : Reply × σ} :
    (if p then (err text, u) else r).1.succeeded = true ↔ ¬ p ∧ r.1.succeeded = true := by
  rw [apply_ite Prod.fst]
  exact succeeded_check

end Reply

/-- The commands that read, list, edit, run, create, remove or move. -/
inductive FileCommand where
  | ls (path : Str)
  | cat (path : Str)
  | touch (path : Str)
  | mkdir (path : Str)
  | rm (path : Str)
  | mv (source target : Str)
  | edit (path : Str)
  | run (path : Str)
  deriving DecidableEq

inductive Command where
  | file (c : FileCommand)
  | cd (path : Str)
  | stat (path : Str)
  | chmod (mode path : Str)
  | chown (user path : Str)
  | other
  deriving DecidableEq

namespace Shell

def allowed (s : Shell) (id : UInt64) (want : UInt16) : Bool := s.accounts.allowed s.fs.vfs id want

def mayModifyDir (s : Shell) (dir : UInt64) : Bool := s.accounts.mayModifyDir s.fs.vfs dir

def resolveFrom (s : Shell) (path : Str) : UInt64 := s.fs.vfs.resolveFrom s.cwd path

def splitParent (s : Shell) (path : Str) : Option (UInt64 × Str) := s.fs.vfs.splitParent s.cwd path

def typeOf (s : Shell) (id : UInt64) : Option VnodeType := s.fs.vfs.getType id

/-- `get_perm(id).unwrap_or(..)`. -/
def permOf (s : Shell) (id : UInt64) : Perm := (s.fs.vfs.getPerm id).getD ⟨0, 0, 0⟩

/-! ## Looking at files -/

/-- Directories first, then files. -/
def grouped (entries : List DirEntry) : List DirEntry :=
  entries.filter (·.vtype = .dir) ++ entries.filter (·.vtype ≠ .dir)

def cmdLs (s : Shell) (path : Str) : Reply :=
  let dir := if path.bytes = [] then s.cwd else s.resolveFrom path
  if dir = 0 then .err "ls: no such file or directory"
  else if s.typeOf dir ≠ some .dir then .plain (s.permOf dir).mode path
  else if !s.allowed dir permR || !s.allowed dir permX then .err "ls: permission denied"
  else .entries (grouped (s.fs.vfs.readDir dir maxChildren))

/-- The lines of a piece of a file that are not empty; a piece that is no text is not shown. -/
def linesOf (piece : Bytes) : List Bytes :=
  if validUtf8 piece then (piece.splitOn 0x0A).filter (· ≠ []) else []

/-- The `while` loop of `cmd_cat`: 512 octets at a time. -/
def catLoop (fs : Ramfs) (id size : UInt64) : (left : Nat) → (off : UInt64) → List Bytes
  | 0, _ => []
  | left + 1, off =>
    if off < size then
      let got := fs.readFileAt id off 512
      if got = [] then []
      else linesOf got ++ catLoop fs id size left (off + UInt64.ofNat got.length)
    else []

def emptyFile : Bytes := "(empty file)".toList.map fun c => UInt8.ofNat c.toNat

/-- A turn of the loop shows an octet at least. -/
def contents (fs : Ramfs) (id : UInt64) : List Bytes :=
  let size := fs.vfs.getSize id
  if size = 0 then [emptyFile] else catLoop fs id size size.toNat 0

def cmdCat (s : Shell) (path : Str) : Reply :=
  if path.bytes = [] then .err "usage: cat <file>"
  else
    let id := s.resolveFrom path
    if id = 0 then .err "cat: no such file"
    else if s.typeOf id = some .dir then .err "cat: is a directory"
    else if !s.allowed id permR then .err "cat: permission denied"
    else .text (contents s.fs id)

/-- `editor::open_file`. -/
def openFile (s : Shell) (id : UInt64) : Shell :=
  if s.fs.vfs.findSlot id = none ∨ s.typeOf id = some .dir then s
  else { s with editor := some (id, s.fs.readFile id maxFileSize) }

def cmdEdit (s : Shell) (path : Str) : Reply × Shell :=
  if path.bytes = [] then (.err "usage: edit <file>", s)
  else
    let id := s.resolveFrom path
    if id = 0 then (.err "edit: no such file", s)
    else if s.typeOf id = some .dir then (.err "edit: is a directory", s)
    else if !s.allowed id permR then (.err "edit: permission denied (read)", s)
    else (.opened (!s.allowed id permW), s.openFile id)

def cmdStat (s : Shell) (path : Str) : Reply :=
  if path.bytes = [] then .err "usage: stat <path>"
  else
    let id := s.resolveFrom path
    if id = 0 then .err "stat: no such file"
    else .stat id ((s.typeOf id).getD .file) (s.permOf id) (s.fs.vfs.getSize id)

def cmdCd (s : Shell) (path : Str) : Reply × Shell :=
  if path.bytes = [] then (.moved rootId, { s with cwd := rootId })
  else
    let id := s.resolveFrom path
    if id = 0 then (.err "cd: no such directory", s)
    else if s.typeOf id ≠ some .dir then (.err "cd: not a directory", s)
    else if !s.allowed id permX then (.err "cd: permission denied", s)
    else (.moved id, { s with cwd := id })

/-! ## Changing the tree -/

def cmdTouch (s : Shell) (path : Str) : Reply × Shell :=
  if path.bytes = [] then (.err "usage: touch <file>", s)
  else
    match s.splitParent path with
    | none => (.err "touch: bad path", s)
    | some (parent, name) =>
      if !s.mayModifyDir parent then (.err "touch: permission denied", s)
      else if s.fs.vfs.lookup parent name ≠ 0 then (.err "touch: already exists", s)
      else
        let (id, fs) := Ramfs.createFileIn s.accounts.currentIds s.fs parent name
        (if id = 0 then .err "touch: could not create" else .ok "created", { s with fs := fs })

def cmdMkdir (s : Shell) (path : Str) : Reply × Shell :=
  if path.bytes = [] then (.err "usage: mkdir <dir>", s)
  else
    match s.splitParent path with
    | none => (.err "mkdir: bad path", s)
    | some (parent, name) =>
      if !s.mayModifyDir parent then (.err "mkdir: permission denied", s)
      else
        let (id, fs) := Ramfs.createDirIn s.accounts.currentIds s.fs parent name
        (if id = 0 then .err "mkdir: could not create (exists? full?)" else .ok "directory created",
          { s with fs := fs })

def cmdRm (s : Shell) (path : Str) : Reply × Shell :=
  if path.bytes = [] then (.err "usage: rm <path>", s)
  else
    match s.splitParent path with
    | none => (.err "rm: bad path", s)
    | some (parent, name) =>
      if s.fs.vfs.lookup parent name = 0 then (.err "rm: no such file or directory", s)
      else if !s.mayModifyDir parent then (.err "rm: permission denied", s)
      else
        let (done, fs) := s.fs.unlink parent name
        (if done then .ok "removed" else .err "rm: failed (directory not empty?)", { s with fs := fs })

/-- The last component of a path. -/
def baseName (path : Str) : Bytes :=
  (((path.trimEnd slash slash_ascii).bytes.splitOn slash).getLast?).getD path.bytes

/-- The buffer of `cmd_mv` for a destination inside a directory. -/
def joinedMax : Nat := 96

/-- Where `mv` moves to: into an existing directory under the original name. What does not fit in the
buffer is cut off. -/
def mvTarget (s : Shell) (source target : Str) : Str :=
  let dst := s.resolveFrom target
  if dst ≠ 0 ∧ s.typeOf dst = some .dir then
    Str.ofUtf8Or target (((target.trimEnd slash slash_ascii).bytes ++ slash :: baseName source).take joinedMax)
  else target

/-- A move between directories: the contents go to a new file, and the old one is dropped. -/
def moveAcross (s : Shell) (srcParent dstParent : UInt64) (old new : Str) : Reply × Shell :=
  let id := s.fs.vfs.lookup srcParent old
  if s.typeOf id = some .dir then (.err "mv: cannot move a directory between parents", s)
  else
    let data := s.fs.readFile id (min (s.fs.vfs.getSize id).toNat maxFileSize)
    let (newId, fs) := Ramfs.createFileIn s.accounts.currentIds s.fs dstParent new
    if newId = 0 then (.err "mv: could not create destination", { s with fs := fs })
    else
      let fs := (fs.writeFile newId data).2
      let fs := match fs.vfs.getPerm id with
        | some perm => { fs with vfs := fs.vfs.setMode newId perm.mode }
        | none => fs
      (.ok "moved", { s with fs := (fs.unlink srcParent old).2 })

def cmdMv (s : Shell) (source target : Str) : Reply × Shell :=
  if source.bytes = [] ∨ target.bytes = [] then (.err "usage: mv <old> <new>", s)
  else
    match s.splitParent source with
    | none => (.err "mv: bad source", s)
    | some (srcParent, old) =>
      match s.splitParent (s.mvTarget source target) with
      | none => (.err "mv: bad destination", s)
      | some (dstParent, new) =>
        if s.fs.vfs.lookup srcParent old = 0 then (.err "mv: no such file", s)
        else if !s.mayModifyDir srcParent || !s.mayModifyDir dstParent then (.err "mv: permission denied", s)
        else if srcParent = dstParent then
          let (done, vfs) := s.fs.vfs.rename srcParent old new
          (if done then .ok "renamed" else .err "mv: rename failed (name taken?)",
            { s with fs := { s.fs with vfs := vfs } })
        else s.moveAcross srcParent dstParent old new

/-- The loop of `parse_octal`: the value and the digits so far. -/
def octalDigits : Bytes → (v digits : Nat) → Option (Nat × Nat)
  | [], v, digits => some (v, digits)
  | b :: rest, v, digits =>
    if b < 0x30 ∨ 0x37 < b then none
    else if digits + 1 > 4 then none
    else octalDigits rest (v * 8 + (b - 0x30).toNat) (digits + 1)

/-- Parse a mode of up to four octal digits. -/
def parseOctal (text : Bytes) : Option UInt16 :=
  (octalDigits text 0 0).bind fun (v, digits) =>
    if digits = 0 ∨ v > 0o7777 then none else some (UInt16.ofNat v &&& 0o777)

def cmdChmod (s : Shell) (mode path : Str) : Reply × Shell :=
  if mode.bytes = [] ∨ path.bytes = [] then
    (.err "usage: chmod <octal> <path>   e.g. chmod 755 /bin/hello", s)
  else
    match parseOctal mode.bytes with
    | none => (.err "chmod: mode must be octal, e.g. 644 or 755", s)
    | some mode =>
      let id := s.resolveFrom path
      if id = 0 then (.err "chmod: no such file", s)
      else if !s.accounts.isRoot ∧ (s.permOf id).uid ≠ s.accounts.currentUid then (.err "chmod: not the owner", s)
      else (.ok "mode changed", { s with fs := { s.fs with vfs := s.fs.vfs.setMode id mode } })

def cmdChown (s : Shell) (user path : Str) : Reply × Shell :=
  if user.bytes = [] ∨ path.bytes = [] then (.err "usage: chown <user> <path>   (root only)", s)
  else if !s.accounts.isRoot then (.err "chown: only root can give files away", s)
  else
    match s.accounts.userByName user with
    | none => (.err "chown: no such user", s)
    | some u =>
      let id := s.resolveFrom path
      if id = 0 then (.err "chown: no such file", s)
      else (.ok "owner changed", { s with fs := { s.fs with vfs := s.fs.vfs.setOwner id u.uid u.gid } })

/-! ## Programs -/

/-- `compat::is_pe`. -/
def isPe (data : Bytes) : Bool := 0x40 ≤ data.length && data.take 2 = [0x4D, 0x5A]

/-- Load and run a PE image. -/
def runPeImage (env : Pe.Env) (s : Shell) (data : Bytes) : Reply × Shell :=
  let (loaded, frames) := Pe.run env data s.frames
  (match loaded.result with
    | .ok r => .exited r
    | .error why => .cannotRun why, { s with frames := frames })

/-- Run a file as a program; `script` runs one, unless scripts are nested too deep. -/
def cmdRun (env : Pe.Env) (script : Option (Shell → Str → Shell)) (s : Shell) (path : Str) : Reply × Shell :=
  if path.bytes = [] then (.err "usage: run <file>", s)
  else
    let id := s.resolveFrom path
    if id = 0 then (.err "run: no such file", s)
    else if s.typeOf id = some .dir then (.err "run: is a directory", s)
    else if !s.allowed id permX then
      (.err "run: permission denied (no execute bit)\n     try: chmod 755 <file>", s)
    else if !s.allowed id permR then (.err "run: permission denied (cannot read the script)", s)
    else
      let data := s.fs.readFile id maxFileSize
      if isPe data then s.runPeImage env data
      else
        match script with
        | none => (.err "run: script nesting too deep", s)
        | some script => (.ok "script finished", script s (Str.ofUtf8Or Str.empty data))

end Shell

/-! ## Commands -/

def FileCommand.perform (env : Pe.Env) (script : Option (Shell → Str → Shell)) (s : Shell) :
    FileCommand → Reply × Shell
  | ls path => (s.cmdLs path, s)
  | cat path => (s.cmdCat path, s)
  | touch path => s.cmdTouch path
  | mkdir path => s.cmdMkdir path
  | rm path => s.cmdRm path
  | mv source target => s.cmdMv source target
  | edit path => s.cmdEdit path
  | run path => s.cmdRun env script path

def Command.perform (env : Pe.Env) (script : Option (Shell → Str → Shell)) (s : Shell) : Command → Shell
  | file c => (c.perform env script s).2
  | cd path => (s.cmdCd path).2
  | stat _ => s
  | chmod mode path => (s.cmdChmod mode path).2
  | chown user path => (s.cmdChown user path).2
  | other => s

/-- A slice given by its characters. -/
def sliceOf (text : Text) : Str := Str.ofUtf8Or Str.empty (encodeUtf8 text)

/-- `arg(line, n)`: the n-th word, or nothing. -/
def arg (line : Str) (n : Nat) : Str :=
  sliceOf ((((decodeLossy line.bytes).splitOnP isWhitespace).filter (· ≠ []))[n]?.getD [])

/-- The command of a line: what stands before the first blank. -/
def Command.parse (line : Str) : Command :=
  match lossy ((line.bytes.splitOn 0x20).headD []) with
  | "cd" => .cd (arg line 1)
  | "ls" => .file (.ls (arg line 1))
  | "cat" => .file (.cat (arg line 1))
  | "touch" => .file (.touch (arg line 1))
  | "mkdir" => .file (.mkdir (arg line 1))
  | "rm" => .file (.rm (arg line 1))
  | "mv" => .file (.mv (arg line 1) (arg line 2))
  | "edit" => .file (.edit (arg line 1))
  | "run" => .file (.run (arg line 1))
  | "stat" => .stat (arg line 1)
  | "chmod" => .chmod (arg line 1) (arg line 2)
  | "chown" => .chown (arg line 1) (arg line 2)
  | _ => .other

/-- The lines of a script that are carried out: no blank lines, no comments, and none that is too long. -/
def scriptLines (text : Str) : List Str :=
  ((decodeLossy text.bytes).splitOn '\n').filterMap fun line =>
    let line := Text.trim line
    if line = [] ∨ line.head? = some '#' ∨ cols ≤ (sliceOf line).bytes.length then none else some (sliceOf line)

/-- Run a script, with so many levels of scripts left. -/
def runScript (env : Pe.Env) : (left : Nat) → Option (Shell → Str → Shell)
  | 0 => none
  | left + 1 => some fun s text =>
    (scriptLines text).foldl (fun s line => (Command.parse line).perform env (runScript env left) s) s

/-- Carry out a line; the keyboard has `maxRunDepth` levels. -/
def processCommand (env : Pe.Env) (left : Nat) (s : Shell) (line : Str) : Shell :=
  (Command.parse line).perform env (runScript env left) s

end BarryOS.Apps
