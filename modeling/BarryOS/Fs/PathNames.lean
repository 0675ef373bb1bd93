import BarryOS.Fs.PathSplit

/-!
# The path of a node leads to it

`path_of` walks up and `resolve` walks down. They are inverse where the names can be told from
what a path is made of, and where the walk up ends at the root: `create_node` and `rename` take
a name with a slash in it, and `.` and `..`, and `path_of` stops after sixteen nodes.
-/

namespace BarryOS.Fs

open Lib Function

/-- A name that is one component of a path. -/
structure Spelled (name : Bytes) : Prop where
  slash : slash ∉ name
  dot : name ≠ [0x2E]
  dotDot : name ≠ [0x2E, 0x2E]

instance (name : Bytes) : Decidable (Spelled name) :=
  decidable_of_iff (Fs.slash ∉ name ∧ name ≠ [0x2E] ∧ name ≠ [0x2E, 0x2E])
    ⟨fun ⟨a, b, c⟩ => ⟨a, b, c⟩, fun ⟨a, b, c⟩ => ⟨a, b, c⟩⟩

theorem Spelled.plain {name : Str} (h : Spelled name.bytes) (some' : name.bytes ≠ []) : Vfs.Plain name :=
  ⟨some', decide_eq_false h.dot, decide_eq_false h.dotDot⟩

variable {t : Vfs}

namespace Vfs

/-- At most `n` steps below the root. -/
def Within (t : Vfs) (n : Nat) (id : UInt64) : Prop := ∃ k ≤ n, t.getParent^[k] id = rootId

/-- A tree in which every node has a path. -/
structure Nameable (t : Vfs) : Prop extends Placed t where
  spelled : ∀ {id v}, t.node id = some v → id ≠ rootId → Spelled v.name
  shallow : ∀ {id v}, t.node id = some v → t.Within chainMax id

/-! ## Up and down -/

theorem Linked.root_parent (h : Linked t) : t.getParent rootId = 0 := by
  obtain ⟨r, hr, -, orphan, -⟩ := h.root
  simp [getParent, hr, orphan]

theorem iterate_getParent_zero (t : Vfs) (n : Nat) : t.getParent^[n] 0 = 0 :=
  iterate_fixed (by simp [getParent]) n

@[simp] theorem spell_nil (t : Vfs) : t.spell [] = [] := rfl

theorem spell_cons (t : Vfs) (id : UInt64) (chain : List UInt64) :
    t.spell (id :: chain) = t.spell chain ++ slash :: t.getName id := by
  simp [spell]

theorem climb_length (t : Vfs) (left : Nat) (id : UInt64) : (t.climb left id).length ≤ left := by
  induction left generalizing id with
  | zero => exact Nat.le_refl 0
  | succ left ih =>
    unfold climb
    split
    · exact Nat.zero_le _
    · exact Nat.succ_le_succ (ih _)

theorem Linked.spell_length (h : Linked t) (chain : List UInt64) :
    (t.spell chain).length ≤ chain.length * (maxName + 1) := by
  induction chain with
  | nil => simp
  | cons id chain ih =>
    have short : (t.getName id).length ≤ maxName := by
      unfold getName
      cases hv : t.node id with
      | none => exact Nat.zero_le _
      | some v => exact (h.named hv).2.2
    rw [spell_cons, List.length_append, List.length_cons, List.length_cons, Nat.add_mul]
    omega

theorem Linked.spell_utf8 (h : Linked t) (chain : List UInt64) : validUtf8 (t.spell chain) = true := by
  induction chain with
  | nil => exact validUtf8_nil
  | cons id chain ih =>
    have name : validUtf8 (t.getName id) = true := by
      unfold getName
      cases hv : t.node id with
      | none => exact validUtf8_nil
      | some v => exact (h.named hv).1
    rw [spell_cons, validUtf8_append_cons slash_ascii, ih, name]
    rfl

variable {id : UInt64} {v : Vnode}

/-- The names on the way up, read downwards, lead back. -/
theorem Nameable.resolve_spell (h : Nameable t) (left k : Nat) (fits : k ≤ left)
    (hv : t.node id = some v) (up : t.getParent^[k] id = rootId) {path : Str}
    (bytes : path.bytes = t.spell (t.climb left id)) : t.resolve path = id := by
  induction left generalizing k id v path with
  | zero =>
    -- no step up is left, so this is the root
    cases Nat.le_zero.mp fits
    have empty : path = Str.empty := Str.ext_bytes bytes
    rw [empty]
    exact up.symm
  | succ left ih =>
    unfold climb at bytes
    by_cases isRoot : id = rootId
    · rw [if_pos (.inr isRoot)] at bytes
      have empty : path = Str.empty := Str.ext_bytes bytes
      rw [empty, isRoot]
      rfl
    obtain ⟨k, rfl⟩ : ∃ j, k = j + 1 := by
      cases k with
      | zero => exact absurd up isRoot
      | succ k => exact ⟨k, rfl⟩
    rw [if_neg (not_or.mpr ⟨(node_id hv).2, isRoot⟩), spell_cons] at bytes
    obtain ⟨-, p, hp, -, listed⟩ := h.placed hv isRoot
    rw [iterate_succ_apply, getParent_eq hv] at up
    rw [getParent_eq hv, getName_eq hv] at bytes
    let front : Str := ⟨t.spell (t.climb left v.parentId), h.spell_utf8 _⟩
    let name : Str := ⟨v.name, (h.named hv).1⟩
    have plain : Plain name := (h.spelled hv isRoot).plain (h.named hv).2.1
    have before : t.resolve front = v.parentId := ih k (by omega) hp up rfl
    have cut : pieces path = pieces front ++ [name] := pieces_append bytes (h.spelled hv isRoot).slash
    unfold resolve at before ⊢
    rw [cut, follow_append, before, follow_plain t _ plain]
    exact h.toLinked.lookup_eq hp listed hv rfl

/-- A buffer that every path fits in. -/
def pathRoom : Nat := chainMax * (maxName + 1)

/-- The path of a node is text, and leads to the node. -/
theorem Nameable.resolve_pathOf (h : Nameable t) (hv : t.node id = some v)
    {room : Nat} (large : pathRoom ≤ room) : ∃ path : Str, path.bytes = t.pathOf id room ∧ t.resolve path = id := by
  obtain ⟨k, fits, up⟩ := h.shallow hv
  have leads : t.resolve ⟨t.spell (t.climb chainMax id), h.spell_utf8 _⟩ = id :=
    h.resolve_spell chainMax k fits hv up rfl
  unfold pathOf
  dsimp only
  split
  next none =>
    simp only [none] at leads
    have one : 1 ≤ room := Nat.le_trans (by decide) large
    refine ⟨⟨[slash], by decide⟩, ?_, leads⟩
    rw [List.take_of_length_le one]
  · refine ⟨_, (List.take_of_length_le ?_).symm, leads⟩
    calc (t.spell (t.climb chainMax id)).length ≤ (t.climb chainMax id).length * (maxName + 1) := h.spell_length _
      _ ≤ pathRoom := Nat.mul_le_mul_right _ (t.climb_length _ _)
      _ ≤ room := large

/-! ## What keeps a tree nameable -/

/-- Where the nodes of a tree have the parents they have in it, they are as far from the root. -/
theorem Placed.iterate_parents {b t u : Vfs} (h : Placed b)
    (before : ∀ {j v}, b.node j = some v → t.getParent j = b.getParent j)
    (after : ∀ {j v}, b.node j = some v → u.getParent j = b.getParent j)
    (hv : b.node id = some v) {k : Nat} (up : t.getParent^[k] id = rootId) : u.getParent^[k] id = rootId := by
  induction k generalizing id v with
  | zero => exact up
  | succ k ih =>
    rw [iterate_succ_apply, before hv] at up
    rw [iterate_succ_apply, after hv]
    by_cases isRoot : id = rootId
    · rw [isRoot, h.toLinked.root_parent, iterate_getParent_zero] at up
      exact absurd up (by decide)
    obtain ⟨-, p, hp, -⟩ := h.placed hv isRoot
    rw [getParent_eq hv] at up ⊢
    exact ih hp up

/-- No node is new, none has moved, and every name is as it was or a component of a path. -/
theorem Nameable.of_old {t u : Vfs} (h : Nameable t) (placed : Placed u) (back : ∀ {j v}, u.node j = some v →
      ∃ w, t.node j = some w ∧ v.parentId = w.parentId ∧ (v.name = w.name ∨ Spelled v.name)) : Nameable u := by
  refine ⟨placed, ?_, ?_⟩
  · intro id v hv notRoot
    obtain ⟨w, hw, -, same | spelled⟩ := back hv
    · rw [same]
      exact h.spelled hw notRoot
    · exact spelled
  · intro id v hv
    obtain ⟨w, hw, -⟩ := back hv
    obtain ⟨k, fits, up⟩ := h.shallow hw
    refine ⟨k, fits, placed.iterate_parents ?_ (fun _ => rfl) hv up⟩
    intro j v' hv'
    obtain ⟨w', hw', parent, -⟩ := back hv'
    simp [getParent, hv', hw', parent]

/-- The condition of one call: names are components of paths, and a node is made less than sixteen levels below
the root, under a directory in use. -/
def Names (t : Vfs) : VfsOp → Prop
  | .createFile ids parentId name =>
    Admits t (.createFile ids parentId name) ∧ Spelled name.bytes ∧ t.Within (chainMax - 1) parentId
  | .createDir ids parentId name =>
    Admits t (.createDir ids parentId name) ∧ Spelled name.bytes ∧ t.Within (chainMax - 1) parentId
  | .rename _ _ new => Spelled new.bytes
  | _ => True

theorem Nameable.created {t u : Vfs} (h : Nameable t) (placed : Placed u) {ids : UInt32 × UInt32} {parentId : UInt64}
    {name : Str} {vtype : VnodeType} (sized : name.bytes.length ≤ maxName)
    (nodes : ∀ j, u.node j = t.createdNode (newNode ids t.nextId parentId name vtype) j)
    (spelled : Spelled name.bytes) (under : t.getType parentId = some .dir)
    (shallow : t.Within (chainMax - 1) parentId) : Nameable u := by
  have old : ∀ {j v k}, t.node j = some v → t.getParent^[k] j = rootId → u.getParent^[k] j = rootId :=
    fun hv up => h.toPlaced.iterate_parents (fun _ => rfl) (fun hw => createdNode_parent h.toTable nodes hw) hv up
  refine ⟨placed, ?_, ?_⟩
  · intro id v hv notRoot
    rw [nodes] at hv
    obtain ⟨w, ⟨-, rfl⟩ | ⟨-, hw⟩, rfl⟩ := createdNode_some hv
    · simpa [newNode, Vnode.setName, List.take_of_length_le sized] using spelled
    · have := h.spelled hw notRoot
      exact this
  · intro id v hv
    have made := hv
    rw [nodes] at hv
    obtain ⟨w, ⟨rfl, rfl⟩ | ⟨-, hw⟩, rfl⟩ := createdNode_some hv
    · obtain ⟨k, fits, up⟩ := shallow
      obtain ⟨p, hp, -⟩ := node_of_dir under
      have parent : u.getParent t.nextId = parentId := by simp [getParent, made, newNode]
      refine ⟨k + 1, by simp only [chainMax] at fits ⊢; omega, ?_⟩
      rw [iterate_succ_apply, parent]
      exact old hp up
    · obtain ⟨k, fits, up⟩ := h.shallow hw
      exact ⟨k, fits, old hw up⟩

theorem Nameable.createNode (h : Nameable t) (ids : UInt32 × UInt32) {parentId : UInt64} {name : Str}
    {vtype : VnodeType} (kind : vtype ≠ .symlink) (room : t.CountsOn parentId name)
    (under : t.mayCreate parentId name = true → t.allocSlot.isSome = true → t.getType parentId = some .dir)
    (spelled : Spelled name.bytes) (shallow : t.Within (chainMax - 1) parentId) :
    Nameable (Vfs.createNode ids t parentId name vtype).2 := by
  have placed := h.toPlaced.createNode ids kind room under
  obtain ⟨-, ⟨-, nodes⟩ | ⟨-, may, slot, nodes⟩⟩ := createNode_cases h.toTable ids vtype room
  · refine h.of_old placed ?_
    intro j v hv
    exact ⟨v, (nodes j).symm.trans hv, rfl, .inl rfl⟩
  · have sized : name.bytes.length ≤ maxName := by
      simp only [mayCreate, Bool.and_eq_true, decide_eq_true_eq] at may
      exact may.1.1.2
    exact h.created placed sized nodes spelled (under may slot) shallow

theorem Nameable.unlink (h : Nameable t) (parentId : UInt64) (name : Str) : Nameable (t.unlink parentId name).2 := by
  refine h.of_old (h.toPlaced.unlink parentId name) ?_
  intro j v hv
  rcases unlink_cases h.toTable parentId name with ⟨-, same⟩ | ⟨-, -, -, -, -, -, -, -, nodes⟩
  · rw [same] at hv
    exact ⟨v, hv, rfl, .inl rfl⟩
  rw [nodes] at hv
  obtain ⟨-, w, hw, rfl⟩ := unlinkedNode_some hv
  exact ⟨w, hw, rfl, .inl rfl⟩

theorem Nameable.rename (h : Nameable t) (parentId : UInt64) (old : Str) {new : Str}
    (spelled : Spelled new.bytes) : Nameable (t.rename parentId old new).2 := by
  refine h.of_old (h.toPlaced.rename parentId old new) ?_
  intro j v hv
  rcases rename_cases h.toTable parentId old new with ⟨-, same⟩ | ⟨-, -, -, sized, _, _, -, -, -, -, nodes⟩
  · rw [same] at hv
    exact ⟨v, hv, rfl, .inl rfl⟩
  rw [nodes] at hv
  obtain ⟨w, hw, rfl⟩ := renamedNode_some hv
  refine ⟨w, hw, (renamed_links _ j new w).2.1, ?_⟩
  split
  · right
    rw [Vnode.setName, List.take_of_length_le sized]
    exact spelled
  · exact .inl rfl

theorem Nameable.reset : Nameable Vfs.reset := by
  refine ⟨Placed.reset, ?_, ?_⟩
  · intro id v hv notRoot
    exact absurd (reset_only hv).1 notRoot
  · intro id v hv
    exact ⟨0, Nat.zero_le _, (reset_only hv).1⟩

theorem Nameable.step {op : VfsOp} (h : Nameable t) (names : Names t op) : Nameable (t.step op) := by
  cases op with
  | createFile ids parentId name =>
    obtain ⟨admits, spelled, shallow⟩ := names
    exact h.createNode ids (by decide) admits.1 admits.2 spelled shallow
  | createDir ids parentId name =>
    obtain ⟨admits, spelled, shallow⟩ := names
    exact h.createNode ids (by decide) admits.1 admits.2 spelled shallow
  | unlink parentId name => exact h.unlink parentId name
  | rename parentId old new => exact h.rename parentId old names
  | reset => exact Nameable.reset

end Vfs

end BarryOS.Fs
