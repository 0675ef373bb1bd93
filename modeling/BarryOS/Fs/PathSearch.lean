import BarryOS.Fs.Path
import BarryOS.Fs.VfsLinks

/-!
# Following a path

The nodes that a path leads through, and the directory with the entry that it names. `split_parent`
finds that directory, but for `/name`: there it takes the working directory.
-/

namespace BarryOS.Fs

open Lib List

/-- The nodes in which the components of a path are looked up. -/
def Vfs.trail (t : Vfs) : UInt64 → List Str → List UInt64
  | _, [] => []
  | cur, part :: rest =>
    if part.bytes = [] then trail t cur rest
    else if isDot part then cur :: trail t cur rest
    else if isDotDot part then cur :: trail t (t.above cur) rest
    else
      let next := t.lookup cur part
      cur :: if next = 0 then [] else trail t next rest

/-- The components before the last one. -/
def dirPieces (path : Str) : List Str := (pieces (path.trimEnd slash slash_ascii)).dropLast

namespace Vfs

/-- The directory with the entry that a path names. -/
def holder (t : Vfs) (cwd : UInt64) (path : Str) : UInt64 := t.follow (origin cwd path) (dirPieces path)

end Vfs

/-- A path of the form `/name`. -/
def bare (path : Str) : Bool := isAbsolute path && (Vfs.cutName path).1.bytes.isEmpty

/-! ## Pieces -/

theorem pieces_bytes (path : Str) : (pieces path).map Str.bytes = path.bytes.splitOn slash :=
  Str.split_bytes path slash slash_ascii

theorem map_bytes_inj {l m : List Str} (same : l.map Str.bytes = m.map Str.bytes) : l = m :=
  map_injective_iff.mpr (fun _ _ => Str.ext_bytes) same

/-- A path in front of its last slash, and the name behind it. -/
theorem pieces_append {path front name : Str} (cut : path.bytes = front.bytes ++ slash :: name.bytes)
    (last : slash ∉ name.bytes) : pieces path = pieces front ++ [name] := by
  apply map_bytes_inj
  rw [map_append, pieces_bytes, pieces_bytes, map_singleton, cut, ← splitOn_of_not_mem last]
  exact splitOnP_append_cons _ _ (by simp)

theorem isAbsolute_trimEnd {path : Str} (some' : (path.trimEnd slash slash_ascii).bytes ≠ []) :
    isAbsolute (path.trimEnd slash slash_ascii) = isAbsolute path := by
  obtain ⟨rest, whole⟩ : (path.trimEnd slash slash_ascii).bytes <+: path.bytes := rdropWhile_prefix _ _
  unfold isAbsolute
  rw [← whole, List.head?_append_of_ne_nil _ some']

/-- What `split_parent` cuts off is the directory part. -/
theorem cutName_dir {path : Str} (some' : (path.trimEnd slash slash_ascii).bytes ≠ []) :
    (isAbsolute path = false ∧ (Vfs.cutName path).1.bytes = [] ∧ dirPieces path = []) ∨
      (dirPieces path = pieces (Vfs.cutName path).1 ∧ ((Vfs.cutName path).1.bytes = [] → isAbsolute path = true) ∧
        ((Vfs.cutName path).1.bytes ≠ [] → isAbsolute (Vfs.cutName path).1 = isAbsolute path)) := by
  have absolute := isAbsolute_trimEnd some'
  unfold Vfs.cutName dirPieces
  dsimp only
  generalize path.trimEnd slash slash_ascii = trimmed at *
  cases cut : trimmed.rsplitOnce slash slash_ascii with
  | none =>
    have no := Str.rsplitOnce_none cut
    refine .inl ⟨?_, rfl, ?_⟩
    · rw [← absolute]
      unfold isAbsolute
      rw [decide_eq_false_iff_not]
      intro first
      exact no (mem_of_head? first)
    · have single : pieces trimmed = [trimmed] := by
        apply map_bytes_inj
        rw [pieces_bytes, map_singleton, splitOn_of_not_mem no]
      rw [single]
      rfl
  | some halves =>
    obtain ⟨dir, name⟩ := halves
    obtain ⟨whole, last⟩ := Str.rsplitOnce_some cut
    simp only [Option.getD_some]
    refine .inr ⟨?_, fun none => ?_, fun some' => ?_⟩
    · rw [pieces_append whole last, dropLast_concat]
    · rw [← absolute]
      unfold isAbsolute
      rw [whole, none]
      simp
    · rw [← absolute]
      unfold isAbsolute
      rw [whole, List.head?_append_of_ne_nil _ some']

theorem splitParent_parts {t : Vfs} {cwd parent : UInt64} {path name : Str}
    (split : t.splitParent cwd path = some (parent, name)) : (path.trimEnd slash slash_ascii).bytes ≠ [] ∧
      parent = t.parentOf cwd (Vfs.cutName path).1 ∧ name = (Vfs.cutName path).2 ∧ name.bytes ≠ [] ∧
      name.bytes.length ≤ maxName ∧ t.getType parent = some .dir := by
  simp only [Vfs.splitParent, Option.ite_none_left_eq_some, not_or, not_not, not_lt] at split
  obtain ⟨some', ⟨named, short⟩, -, dir, rfl, rfl⟩ := split
  exact ⟨some', rfl, rfl, named, short, dir⟩

theorem splitParent_some {t : Vfs} {cwd parent : UInt64} {path name : Str}
    (split : t.splitParent cwd path = some (parent, name)) :
    parent = (if bare path then cwd else t.holder cwd path) ∧ path.bytes ≠ [] ∧ name.bytes ≠ [] ∧
      name.bytes.length ≤ maxName := by
  obtain ⟨some', place, -, named, short, -⟩ := splitParent_parts split
  refine ⟨place.trans ?_, fun none => some' ?_, named, short⟩
  · unfold Vfs.parentOf bare Vfs.holder
    rcases cutName_dir some' with ⟨relative, none, nothing⟩ | ⟨dir, bareAbs, sameAbs⟩
    · simp [relative, none, nothing, Vfs.origin, Vfs.follow]
    by_cases none : (Vfs.cutName path).1.bytes = []
    · simp [none, bareAbs none]
    · simp [none, dir, Vfs.resolveFrom, Vfs.origin, sameAbs none]
  · unfold Str.trimEnd
    simp [none]

/-! ## What the calls answer -/

namespace Vfs

theorem createNode_ne_zero (ids : UInt32 × UInt32) (t : Vfs) (parentId : UInt64) (name : Str) (vtype : VnodeType) :
    (createNode ids t parentId name vtype).1 ≠ 0 ↔
      t.mayCreate parentId name = true ∧ t.allocSlot.isSome ∧ t.nextId ≠ 0 := by
  unfold createNode
  split
  next refused =>
    have no : t.mayCreate parentId name = false := by simpa using refused
    simp [no]
  rename_i may
  have yes : t.mayCreate parentId name = true := by simpa using may
  have same : ({ t with nextId := t.nextId + 1 } : Vfs).allocSlot = t.allocSlot := rfl
  dsimp only
  rw [same]
  cases t.allocSlot with
  | none => simp
  | some slot => simp [yes]

theorem unlink_true (t : Vfs) (parentId : UInt64) (name : Str) : (t.unlink parentId name).1 = true ↔
    t.lookup parentId name ≠ 0 ∧
      ¬ (t.getType (t.lookup parentId name) = some .dir ∧ t.childCount (t.lookup parentId name) > 0) := by
  unfold unlink
  by_cases absent : t.lookup parentId name = 0
  · simp [absent]
  rw [if_neg absent]
  by_cases full : t.getType (t.lookup parentId name) = some .dir ∧ t.childCount (t.lookup parentId name) > 0
  · simp [full]
  obtain ⟨p, c, parent, listed, -, -⟩ := lookup_found absent
  rw [if_neg full]
  unfold unlinkChild
  simp only [parent, listed, if_true, Bool.not_true, Bool.false_eq_true, if_false]
  split <;> exact iff_of_true rfl ⟨absent, full⟩

theorem rename_true (t : Vfs) (parentId : UInt64) {old new : Str} (some' : new.bytes ≠ [])
    (short : new.bytes.length ≤ maxName) (found : t.lookup parentId old ≠ 0) : (t.rename parentId old new).1 = true ↔
      t.lookup parentId new = 0 ∨ t.lookup parentId new = t.lookup parentId old := by
  obtain ⟨p, c, -, -, child, -⟩ := lookup_found found
  obtain ⟨slot, at', -⟩ := findSlot_of_node child
  have sized : ¬ (new.bytes.isEmpty || decide (new.bytes.length > maxName)) = true := by
    simp [some', short]
  unfold rename
  rw [if_neg sized]
  dsimp only
  rw [if_neg found]
  split
  next taken =>
    simp only [Bool.false_eq_true, false_iff, not_or]
    exact taken
  rename_i free
  rw [at']
  simp only [true_iff]
  by_cases none : t.lookup parentId new = 0
  · exact .inl none
  · exact .inr (Classical.not_not.mp fun other => free ⟨none, other⟩)

end Vfs

end BarryOS.Fs
