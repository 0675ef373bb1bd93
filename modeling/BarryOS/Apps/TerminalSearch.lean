import BarryOS.Apps.Terminal
import BarryOS.Fs.PathSearch

/-!
# Searching directories

On Unix a path is followed through directories that the user may search: every component is looked
up in a directory, `.` and `..` included, and each of these needs execute permission. The shell
asks for permission on the final node, or on the directory that holds the entry, and on nothing
that was passed on the way.
-/

namespace BarryOS.Apps

open Lib Fs Compat List

namespace Shell

variable (s : Shell)

/-- The nodes passed on the way to what a path names. -/
def passedTo (path : Str) : List UInt64 := s.fs.vfs.trail (Vfs.origin s.cwd path) (pieces path)

/-- The nodes passed on the way to the directory with the entry that a path names. -/
def passedBefore (path : Str) : List UInt64 := s.fs.vfs.trail (Vfs.origin s.cwd path) (dirPieces path)

def holder (path : Str) : UInt64 := s.fs.vfs.holder s.cwd path

/-- A path names a directory: `mv` moves into it. -/
def Into (target : Str) : Prop := s.resolveFrom target ≠ 0 ∧ s.typeOf (s.resolveFrom target) = some .dir

instance (target : Str) : Decidable (s.Into target) := inferInstanceAs (Decidable (_ ∧ _))

/-- The directory that `mv` moves to. -/
def destination (target : Str) : UInt64 := if s.Into target then s.resolveFrom target else s.holder target

def passedToDestination (target : Str) : List UInt64 :=
  if s.Into target then s.passedTo target else s.passedBefore target

/-- The user may search it, if it is a directory. -/
def Searchable (d : UInt64) : Prop := s.typeOf d = some .dir → s.allowed d permX = true

end Shell

variable {p : UInt64 → Str → Prop} {path : Str}

namespace FileCommand

open Shell Reply

/-- The nodes passed while the paths of a command are resolved. -/
def passed (s : Shell) : FileCommand → List UInt64
  | ls path | cat path | edit path | run path => s.passedTo path
  | touch path | mkdir path | rm path => s.passedBefore path
  | mv source target => s.passedBefore source ++ s.passedToDestination target

/-- The permissions that an operation itself needs. -/
def needs (s : Shell) : FileCommand → List (UInt64 × UInt16)
  | ls path =>
    let id := s.resolveFrom path
    if s.typeOf id = some .dir then [(id, permR), (id, permX)] else []
  | cat path | edit path => [(s.resolveFrom path, permR)]
  | run path => [(s.resolveFrom path, permX), (s.resolveFrom path, permR)]
  | touch path | mkdir path | rm path => [(s.holder path, permW ||| permX)]
  | mv source target => [(s.holder source, permW ||| permX), (s.destination target, permW ||| permX)]

/-- What Unix asks for. -/
structure Permitted (s : Shell) (c : FileCommand) : Prop where
  search : ∀ d ∈ c.passed s, s.Searchable d
  own : ∀ n ∈ c.needs s, s.allowed n.1 n.2 = true

/-! ## When a command goes through -/

/-- There is room for a new entry. -/
def Creatable (s : Shell) (parent : UInt64) (name : Str) : Prop :=
  s.fs.vfs.mayCreate parent name = true ∧ s.fs.vfs.allocSlot.isSome ∧ s.fs.vfs.nextId ≠ 0

/-- There is such an entry, and it is no directory with entries of its own. -/
def Removable (s : Shell) (parent : UInt64) (name : Str) : Prop :=
  s.fs.vfs.lookup parent name ≠ 0 ∧ ¬ (s.typeOf (s.fs.vfs.lookup parent name) = some .dir ∧
    s.fs.vfs.childCount (s.fs.vfs.lookup parent name) > 0)

/-- The new name is free, or it is the old one. -/
def Renamable (s : Shell) (parent : UInt64) (old new : Str) : Prop :=
  s.fs.vfs.lookup parent new = 0 ∨ s.fs.vfs.lookup parent new = s.fs.vfs.lookup parent old

/-- An entry of a directory that the user may change. -/
def EntryAt (s : Shell) (path : Str) (p : UInt64 → Str → Prop) : Prop :=
  ∃ parent name, s.splitParent path = some (parent, name) ∧ s.mayModifyDir parent = true ∧ p parent name

/-- The shell's own checks on a file that is read. -/
def Readable (s : Shell) (path : Str) : Prop :=
  path.bytes ≠ [] ∧ s.resolveFrom path ≠ 0 ∧ s.typeOf (s.resolveFrom path) ≠ some .dir ∧
    s.allowed (s.resolveFrom path) permR = true

/-- An image loads, and a script is not nested too deep. -/
def Runs (env : Pe.Env) (left : Nat) (s : Shell) (data : Bytes) : Prop :=
  if isPe data then Emit.Passes (Pe.run env data s.frames).1 else left ≠ 0

/-- Everything that the shell asks for, but for the directories passed on the way. -/
def Admitted (env : Pe.Env) (left : Nat) (s : Shell) : FileCommand → Prop
  | ls path => s.resolveFrom path ≠ 0 ∧ (s.typeOf (s.resolveFrom path) = some .dir →
      s.allowed (s.resolveFrom path) permR = true ∧ s.allowed (s.resolveFrom path) permX = true)
  | cat path | edit path => Readable s path
  | run path => Readable s path ∧ s.allowed (s.resolveFrom path) permX = true ∧
      Runs env left s (s.fs.readFile (s.resolveFrom path) maxFileSize)
  | touch path | mkdir path => EntryAt s path (Creatable s)
  | rm path => EntryAt s path (Removable s)
  | mv source target => EntryAt s source fun srcParent old =>
      EntryAt s (s.mvTarget source target) fun dstParent new =>
        target.bytes ≠ [] ∧ s.fs.vfs.lookup srcParent old ≠ 0 ∧
          if srcParent = dstParent then Renamable s srcParent old new
          else s.typeOf (s.fs.vfs.lookup srcParent old) ≠ some .dir ∧ Creatable s dstParent new

/-- The directories that an operation needs and the shell does not look at: for `/name` it looks at the working
directory, and for a destination that was cut off, wherever that leads. -/
def strays (s : Shell) : FileCommand → List UInt64
  | ls _ | cat _ | edit _ | run _ => []
  | touch path | mkdir path | rm path => if bare path then [s.holder path] else []
  | mv source target => (if bare source then [s.holder source] else []) ++
      if (s.splitParent (s.mvTarget source target)).map Prod.fst = some (s.destination target) then []
      else [s.destination target]

/-! ## The commands -/

section Commands

variable (env : Pe.Env) (left : Nat) (s : Shell)

theorem resolveFrom_empty (none : path.bytes = []) : s.resolveFrom path = s.cwd := by
  have single : pieces path = [path] := by
    apply map_bytes_inj
    rw [pieces_bytes, map_singleton, none]
    rfl
  unfold Shell.resolveFrom Vfs.resolveFrom Vfs.origin isAbsolute
  rw [single]
  simp [Vfs.follow, none]

theorem cmdLs_succeeded (path : Str) : (s.cmdLs path).succeeded = true ↔ Admitted env left s (.ls path) := by
  have same : (if path.bytes = [] then s.cwd else s.resolveFrom path) = s.resolveFrom path := by
    split
    · exact (resolveFrom_empty s (by assumption)).symm
    · rfl
  unfold cmdLs Admitted
  rw [same]
  rw [succeeded_check]
  refine and_congr_right fun _ => ?_
  by_cases dir : s.typeOf (s.resolveFrom path) = some .dir
  · rw [if_neg (not_not.mpr dir), succeeded_check]
    simp [dir]
  simp [dir]

theorem cmdCat_succeeded (path : Str) : (s.cmdCat path).succeeded = true ↔ Readable s path := by
  unfold cmdCat Readable
  simp [succeeded_check]

theorem cmdEdit_succeeded (path : Str) : (s.cmdEdit path).1.succeeded = true ↔ Readable s path := by
  unfold cmdEdit Readable
  simp [succeeded_check_fst]

theorem runPeImage_succeeded (data : Bytes) :
    (s.runPeImage env data).1.succeeded = true ↔ Emit.Passes (Pe.run env data s.frames).1 := by
  unfold runPeImage Emit.Passes
  dsimp only
  split
  next r ok => exact iff_of_true rfl ⟨r, ok⟩
  next why failed => simp [failed]

theorem cmdRun_succeeded (path : Str) : (s.cmdRun env (runScript env left) path).1.succeeded = true ↔
    Admitted env left s (.run path) := by
  unfold cmdRun Admitted Readable Runs
  simp only [succeeded_check_fst]
  generalize s.fs.readFile (s.resolveFrom path) maxFileSize = data
  by_cases image : isPe data
  · simp only [image, if_true, runPeImage_succeeded]
    simp
    tauto
  cases left with
  | zero => simp [image, runScript]
  | succ left =>
    simp [image]
    tauto

/-- The directory part of a path, and what is done with the entry. -/
theorem entryAt_of_split {parent : UInt64} {name : Str} (split : s.splitParent path = some (parent, name)) :
    EntryAt s path p ↔ s.mayModifyDir parent = true ∧ p parent name := by
  unfold EntryAt
  rw [split]
  constructor
  · rintro ⟨parent', name', same, rest⟩
    cases same
    exact rest
  · intro rest
    exact ⟨parent, name, rfl, rest⟩

theorem not_entryAt_of_split (split : s.splitParent path = none) : ¬ EntryAt s path p := by
  rintro ⟨parent, name, found, -⟩
  rw [split] at found
  cases found

/-- A command on an entry fails without a path, and where the path leads nowhere. -/
theorem entry_succeeded {usage bad : String} {done : UInt64 → Str → Reply × Shell}
    (each : ∀ parent name, (done parent name).1.succeeded = true ↔ s.mayModifyDir parent = true ∧ p parent name) :
    (if path.bytes = [] then (.err usage, s)
      else
        match s.splitParent path with
        | none => (.err bad, s)
        | some (parent, name) => done parent name : Reply × Shell).1.succeeded = true ↔ EntryAt s path p := by
  rw [succeeded_check_fst]
  cases split : s.splitParent path with
  | none => simp [not_entryAt_of_split s split]
  | some entry =>
    rw [entryAt_of_split s split, ← each]
    exact and_iff_right (splitParent_some split).2.1

theorem cmdTouch_succeeded (path : Str) : (s.cmdTouch path).1.succeeded = true ↔ EntryAt s path (Creatable s) := by
  unfold cmdTouch
  refine entry_succeeded s fun parent name => ?_
  have created := Vfs.createNode_ne_zero s.accounts.currentIds s.fs.vfs parent name .file
  simp only [succeeded_check_fst, succeeded_check]
  unfold Creatable Ramfs.createFileIn Vfs.createFile
  have fresh : (Vfs.createNode s.accounts.currentIds s.fs.vfs parent name .file).1 ≠ 0 →
      s.fs.vfs.lookup parent name = 0 := by
    intro made
    have may := (created.mp made).1
    unfold Vfs.mayCreate at may
    simp only [Bool.and_eq_true, decide_eq_true_eq] at may
    exact may.1.2
  simp
  tauto

theorem cmdMkdir_succeeded (path : Str) : (s.cmdMkdir path).1.succeeded = true ↔ EntryAt s path (Creatable s) := by
  unfold cmdMkdir
  refine entry_succeeded s fun parent name => ?_
  have created := Vfs.createNode_ne_zero s.accounts.currentIds s.fs.vfs parent name .dir
  simp only [succeeded_check_fst, succeeded_check]
  unfold Creatable Ramfs.createDirIn Vfs.createDir
  rw [← created]
  simp

theorem unlink_fst (parent : UInt64) (name : Str) : (s.fs.unlink parent name).1 = (s.fs.vfs.unlink parent name).1 := by
  unfold Ramfs.unlink
  dsimp only
  split
  next absent =>
    unfold Vfs.unlink
    simp [absent]
  split
  next failed => simpa using failed
  next done => simpa using done

theorem cmdRm_succeeded (path : Str) : (s.cmdRm path).1.succeeded = true ↔ EntryAt s path (Removable s) := by
  unfold cmdRm
  refine entry_succeeded s fun parent name => ?_
  have removed := Vfs.unlink_true s.fs.vfs parent name
  rw [← unlink_fst s] at removed
  simp only [succeeded_check_fst]
  unfold Removable Shell.typeOf
  rw [← removed]
  cases done : (s.fs.unlink parent name).1 with
  | false => simp
  | true =>
    have found := (removed.mp done).1
    simp [found]

theorem moveAcross_succeeded (srcParent dstParent : UInt64) (old new : Str) :
    (s.moveAcross srcParent dstParent old new).1.succeeded = true ↔
      s.typeOf (s.fs.vfs.lookup srcParent old) ≠ some .dir ∧ Creatable s dstParent new := by
  unfold moveAcross Creatable
  rw [← Vfs.createNode_ne_zero s.accounts.currentIds s.fs.vfs dstParent new .file]
  simp only [succeeded_check_fst]
  simp [Ramfs.createFileIn, Vfs.createFile]

theorem cmdMv_succeeded (source target : Str) : (s.cmdMv source target).1.succeeded = true ↔
    Admitted env left s (.mv source target) := by
  unfold cmdMv Admitted
  dsimp only
  rw [succeeded_check_fst]
  cases from' : s.splitParent source with
  | none => simp [not_entryAt_of_split s from']
  | some src =>
    obtain ⟨srcParent, old⟩ := src
    have some' := (splitParent_some from').2.1
    rw [entryAt_of_split s from']
    cases into : s.splitParent (s.mvTarget source target) with
    | none => simp [not_entryAt_of_split s into]
    | some dst =>
      obtain ⟨dstParent, new⟩ := dst
      obtain ⟨-, -, named, short⟩ := splitParent_some into
      rw [entryAt_of_split s into]
      simp only [succeeded_check_fst]
      by_cases same : srcParent = dstParent
      · subst same
        by_cases found : s.fs.vfs.lookup srcParent old = 0
        · simp [found]
        have renamed := Vfs.rename_true s.fs.vfs srcParent named short found
        unfold Renamable
        rw [← renamed]
        cases done : (s.fs.vfs.rename srcParent old new).1 with
        | false => simp
        | true => simp [some', found, and_comm]
      · rw [if_neg same, if_neg same, moveAcross_succeeded]
        simp
        tauto

/-- A command succeeds exactly when the shell's own checks let it through. -/
theorem succeeded_iff (c : FileCommand) :
    (c.perform env (runScript env left) s).1.succeeded = true ↔ c.Admitted env left s := by
  cases c with
  | ls path => exact cmdLs_succeeded env left s path
  | cat path => exact cmdCat_succeeded s path
  | touch path => exact cmdTouch_succeeded s path
  | mkdir path => exact cmdMkdir_succeeded s path
  | rm path => exact cmdRm_succeeded s path
  | mv source target => exact cmdMv_succeeded env left s source target
  | edit path => exact cmdEdit_succeeded s path
  | run path => exact cmdRun_succeeded env left s path

/-- An entry in a directory that may be changed: that is the directory of the path, unless it is bare. -/
theorem holder_iff (entry : EntryAt s path p) : s.allowed (s.holder path) (permW ||| permX) = true ↔
      ∀ d ∈ (if bare path then [s.holder path] else []), s.mayModifyDir d = true := by
  obtain ⟨parent, name, split, may, -⟩ := entry
  have place := (splitParent_some split).1
  by_cases direct : bare path
  · simp only [direct, if_true, mem_singleton, forall_eq]
    rfl
  simp only [direct, if_false, Bool.false_eq_true] at place ⊢
  rw [place] at may
  simp only [not_mem_nil, false_implies, implies_true, iff_true]
  exact may

/-- What an operation itself needs has been asked for, but for the directories that the shell does not
look at. -/
theorem needs_iff (c : FileCommand) (admitted : c.Admitted env left s) :
    (∀ n ∈ c.needs s, s.allowed n.1 n.2 = true) ↔ ∀ d ∈ c.strays s, s.mayModifyDir d = true := by
  cases c with
  | ls path =>
    refine iff_of_true ?_ (by simp [strays])
    unfold needs
    dsimp only
    split
    next dir =>
      have both := admitted.2 dir
      simp [both.1, both.2]
    · simp
  | cat path => exact iff_of_true (by simpa [needs] using admitted.2.2.2) (by simp [strays])
  | edit path => exact iff_of_true (by simpa [needs] using admitted.2.2.2) (by simp [strays])
  | run path =>
    obtain ⟨readable, execute, -⟩ := admitted
    exact iff_of_true (by simpa [needs] using ⟨execute, readable.2.2.2⟩) (by simp [strays])
  | touch path => simpa [needs, strays] using holder_iff s admitted
  | mkdir path => simpa [needs, strays] using holder_iff s admitted
  | rm path => simpa [needs, strays] using holder_iff s admitted
  | mv source target =>
    have first := holder_iff s admitted
    obtain ⟨srcParent, old, -, -, entry⟩ := admitted
    obtain ⟨dstParent, new, split, may, -⟩ := entry
    have second : s.allowed (s.destination target) (permW ||| permX) = true ↔
        ∀ d ∈ (if (s.splitParent (s.mvTarget source target)).map Prod.fst = some (s.destination target) then []
          else [s.destination target]), s.mayModifyDir d = true := by
      rw [split]
      by_cases there : dstParent = s.destination target
      · rw [there] at may
        simp only [Option.map_some, there, if_true, not_mem_nil, false_implies, implies_true, iff_true]
        exact may
      simp only [Option.map_some, Option.some.injEq, there, if_false, mem_singleton, forall_eq]
      rfl
    unfold needs strays
    simp only [forall_mem_cons, forall_mem_append, not_mem_nil, false_implies, implies_true, and_true]
    exact and_congr first second

end Commands

/-- A command that succeeds had every permission Unix asks for, exactly when, its own checks passed, the user may
search the directories it passed and change those it did not look at. -/
theorem permitted_iff (env : Pe.Env) (left : Nat) (s : Shell) (c : FileCommand) :
    ((c.perform env (runScript env left) s).1.succeeded = true → c.Permitted s) ↔
      (c.Admitted env left s → (∀ d ∈ c.passed s, s.Searchable d) ∧ ∀ d ∈ c.strays s, s.mayModifyDir d = true) := by
  rw [succeeded_iff]
  refine forall_congr' fun admitted => ?_
  rw [← needs_iff env left s c admitted]
  constructor
  · intro permitted
    exact ⟨permitted.search, permitted.own⟩
  · rintro ⟨search, own⟩
    exact ⟨search, own⟩

/-- The root's directory `d`, which nobody else may search, with a file `f` that anybody may read. -/
def lockedTree : Ramfs :=
  let (d, fs) := Ramfs.createDirIn (uidRoot, gidRoot) Ramfs.boot rootId (.letter 3)
  let (_, fs) := Ramfs.createFileIn (uidRoot, gidRoot) fs d (.letter 5)
  { fs with vfs := fs.vfs.setMode d 0o700 }

def guestShell : Shell where
  fs := lockedTree
  accounts := ⟨[⟨1001, 1001, [0x67]⟩], 1001⟩
  cwd := rootId
  editor := none
  frames := ⟨fun _ => false, 0, 0⟩

/-- `d/f`. -/
def lockedFile : Str := Str.ofUtf8Or Str.empty [0x64, 0x2F, 0x66]

/-- A file below a directory that the user may not search is shown all the same. -/
theorem unsearchable_directory_passed : ¬ ∀ (env : Pe.Env) (left : Nat) (s : Shell) (c : FileCommand),
    s.accounts.isRoot = false → s.typeOf s.cwd = some .dir →
      (c.perform env (runScript env left) s).1.succeeded = true → c.Permitted s := by
  intro always
  have permitted := always ⟨fun _ => 0, fun _ => 0⟩ maxRunDepth guestShell (.cat lockedFile)
    (by decide +kernel) (by decide +kernel) (by decide +kernel)
  have passed : (2 : UInt64) ∈ FileCommand.passed guestShell (.cat lockedFile) := by decide +kernel
  have denied := permitted.search 2 passed (by decide +kernel)
  revert denied
  decide +kernel

end FileCommand

end BarryOS.Apps
