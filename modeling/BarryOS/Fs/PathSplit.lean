import BarryOS.Fs.PathSearch
import BarryOS.Fs.VfsTree

/-!
# The two readers of a path

`split_parent` cuts a path at its last slash and resolves what stands before it; `resolve_from`
walks through all of it. Both come to the same entry, but for `/name`: what `split_parent` has
before the slash is then empty, and it takes the working directory for the parent.
-/

namespace BarryOS.Fs

open Lib List

/-! ## Pieces of a path with an entry -/

/-- A slash and a name, with or without slashes behind it. -/
def OneSlash (path : Str) : Prop :=
  ∃ (name : Bytes) (k : Nat), path.bytes = slash :: name ++ replicate k slash ∧ slash ∉ name

variable {t : Vfs} {cwd parent cur : UInt64} {path name : Str}

namespace Vfs

/-! ## Following pieces one after the other -/

theorem above_of_absent (absent : t.node cur = none) : t.above cur = cur := by
  simp [above, getParent, absent]

theorem lookup_of_absent (absent : t.node cur = none) (name : Str) : t.lookup cur name = 0 := by
  simp [lookup, absent]

/-- From an id that is not in use nothing is reached. -/
theorem follow_absent (absent : t.node cur = none) (parts : List Str) :
    t.follow cur parts = cur ∨ t.follow cur parts = 0 := by
  induction parts with
  | nil => exact .inl rfl
  | cons part rest ih =>
    unfold follow
    rw [above_of_absent absent, lookup_of_absent absent]
    split
    · exact ih
    split
    · exact ih
    · exact .inr rfl

@[simp] theorem follow_zero (t : Vfs) (parts : List Str) : t.follow 0 parts = 0 :=
  (follow_absent (node_zero t) parts).elim id id

theorem follow_append (t : Vfs) (cur : UInt64) (front back : List Str) :
    t.follow cur (front ++ back) = t.follow (t.follow cur front) back := by
  induction front generalizing cur with
  | nil => rfl
  | cons part rest ih =>
    rw [cons_append, follow, follow]
    split
    · exact ih _
    split
    · exact ih _
    dsimp only
    split
    · exact (follow_zero t back).symm
    · exact ih _

/-- A component that is looked up: neither empty nor `.` nor `..`. -/
structure Plain (name : Str) : Prop where
  some' : name.bytes ≠ []
  dot : isDot name = false
  dotDot : isDotDot name = false

theorem follow_plain (t : Vfs) (cur : UInt64) (plain : Plain name) (rest : List Str) :
    t.follow cur (name :: rest) = t.follow (t.lookup cur name) rest := by
  rw [follow, if_neg (by simp [plain.some', plain.dot]), if_neg (by simp [plain.dotDot])]
  dsimp only
  split
  next none => rw [none, follow_zero]
  · rfl

theorem node_of_dir {id : UInt64} (dir : t.getType id = some .dir) : ∃ v, t.node id = some v ∧ v.vtype = .dir := by
  simpa [getType] using dir

theorem Linked.lookup_eq (h : Linked t) {d c : UInt64} {p v : Vnode}
    (hp : t.node d = some p) (listed : c ∈ p.childIds) (hc : t.node c = some v) (named : v.name = name.bytes) :
    t.lookup d name = c := by
  have found : t.lookup d name ≠ 0 := fun none => lookup_absent none hp listed hc named
  obtain ⟨q, w, hq, listed', hw, named'⟩ := lookup_found found
  cases hp.symm.trans hq
  exact h.siblings hp _ listed' _ listed hw hc (named'.trans named.symm)

theorem Placed.above_node (h : Placed t) {v : Vnode} (hv : t.node cur = some v) :
    ∃ w, t.node (t.above cur) = some w := by
  unfold above
  split
  next up =>
    by_cases isRoot : cur = rootId
    · obtain ⟨r, hr, -, orphan, -⟩ := h.root
      rw [isRoot] at up
      simp [getParent, hr, orphan] at up
    obtain ⟨-, p, hp, -⟩ := h.placed hv isRoot
    refine ⟨p, ?_⟩
    rw [getParent, hv]
    exact hp
  · exact ⟨v, hv⟩

section Created

variable {t u : Vfs} {new : Vnode}

theorem createdNode_parent (table : Table t) (nodes : ∀ j, u.node j = t.createdNode new j) {j : UInt64} {v : Vnode}
    (hv : t.node j = some v) : u.getParent j = t.getParent j := by
  rw [getParent, getParent, nodes, createdNode_old table new hv, hv]
  rfl

theorem Linked.lookup_created (h : Linked t) (linked : Linked u) (nodes : ∀ j, u.node j = t.createdNode new j)
    {d : UInt64} (found : t.lookup d name ≠ 0) : u.lookup d name = t.lookup d name := by
  obtain ⟨p, c, hp, listed, hc, named⟩ := lookup_found found
  have parent := (nodes d).trans (createdNode_old h.toTable new hp)
  have child := (nodes _).trans (createdNode_old h.toTable new hc)
  exact linked.lookup_eq parent (mem_append_left _ listed) child named

/-- A walk that gets through in the tree before gets through behind it, to the same node. -/
theorem Placed.follow_created (h : Placed t) (linked : Linked u) (nodes : ∀ j, u.node j = t.createdNode new j)
    {v : Vnode} (hv : t.node cur = some v) {parts : List Str} (through : t.follow cur parts ≠ 0) :
    u.follow cur parts = t.follow cur parts := by
  induction parts generalizing cur v with
  | nil => rfl
  | cons part rest ih =>
    have up : u.above cur = t.above cur := by
      unfold above
      rw [createdNode_parent h.toTable nodes hv]
    unfold follow at through ⊢
    rw [up]
    split
    next stays =>
      rw [if_pos stays] at through
      exact ih hv through
    rename_i moves
    rw [if_neg moves] at through
    split
    next dots =>
      rw [if_pos dots] at through
      obtain ⟨w, hw⟩ := h.above_node hv
      exact ih hw through
    next named =>
      rw [if_neg named] at through
      by_cases miss : t.lookup cur part = 0
      · rw [if_pos miss] at through
        exact absurd rfl through
      rw [if_neg miss] at through
      rw [h.toLinked.lookup_created linked nodes miss, if_neg miss, if_neg miss]
      obtain ⟨-, c, -, -, hc, -⟩ := lookup_found miss
      exact ih hc through

theorem follow_of_nodes (nodes : ∀ j, u.node j = t.node j) (cur : UInt64) (parts : List Str) :
    u.follow cur parts = t.follow cur parts := by
  have same : u.node = t.node := funext nodes
  induction parts generalizing cur with
  | nil => rfl
  | cons part rest ih =>
    unfold follow above lookup getParent
    simp only [same, ih]

end Created

def Creates : VfsOp → Bool
  | .createFile .. | .createDir .. => true
  | _ => false

theorem Placed.resolveFrom_step (h : Placed t) {op : VfsOp} (creates : Creates op = true) (admits : Admits t op)
    (used : t.node cwd ≠ none) (found : t.resolveFrom cwd path ≠ 0) :
    (t.step op).node cwd ≠ none ∧ (t.step op).resolveFrom cwd path = t.resolveFrom cwd path := by
  have linked := (h.step admits).toLinked
  obtain ⟨v, hv⟩ := Option.ne_none_iff_exists'.mp used
  obtain ⟨w, hw⟩ : ∃ w, t.node (origin cwd path) = some w := by
    unfold origin
    split
    · exact ⟨_, h.root.choose_spec.1⟩
    · exact ⟨v, hv⟩
  have either : (∀ j, (t.step op).node j = t.node j) ∨ ∃ new, ∀ j, (t.step op).node j = t.createdNode new j := by
    cases op with
    | createFile ids parentId name | createDir ids parentId name =>
      obtain ⟨-, ⟨-, same⟩ | ⟨-, -, -, nodes⟩⟩ := createNode_cases h.toTable ids _ admits.1
      · exact .inl same
      · exact .inr ⟨_, nodes⟩
    | _ => cases creates
  rcases either with same | ⟨new, nodes⟩
  · exact ⟨by rwa [same], follow_of_nodes same _ _⟩
  · refine ⟨?_, h.follow_created linked nodes hw found⟩
    rw [nodes, createdNode_old h.toTable new hv]
    exact Option.some_ne_none _

/-- Whatever is created later, a path that leads somewhere goes on leading there. -/
theorem Placed.paths_survive (h : Placed t) (ops : List VfsOp) (creates : ∀ op ∈ ops, Creates op = true)
    (admitted : Along Vfs.step Admits t ops) (used : t.node cwd ≠ none) (found : t.resolveFrom cwd path ≠ 0) :
    (run Vfs.step t ops).resolveFrom cwd path = t.resolveFrom cwd path := by
  induction ops generalizing t with
  | nil => rfl
  | cons op ops ih =>
    obtain ⟨first, rest⟩ := forall_mem_cons.mp creates
    obtain ⟨still, same⟩ := h.resolveFrom_step first admitted.1 used found
    rw [run_cons, ih (h.step admitted.1) rest admitted.2 still (same ▸ found), same]

theorem directory_survives : (run Vfs.step (Vfs.reset.step (.createDir (0, 0) rootId nameD))
    [.createFile (0, 0) 2 nameF]).resolveFrom rootId nameD = 2 := by
  have h := Placed.reset.step (show Admits _ (.createDir (0, 0) rootId nameD) from
    ⟨fun _ => by decide, fun _ _ => by decide⟩)
  exact h.paths_survive _ (by decide) ⟨⟨fun _ => by decide, fun _ _ => by decide⟩, trivial⟩ (by decide) (by decide)

end Vfs

end BarryOS.Fs
