import BarryOS.Fs.Vfs

/-!
# What the VFS calls do to the table

Each call is read as a change of the finite map `node` from ids to vnodes. `Table`
is what makes that reading right: the ids in use are distinct and below the counter.
`createNode_cases`, `unlink_cases` and `rename_cases` say everything the calls can do;
the invariants further up are derived from them and look at no table again.

`Linked` is what holds of the parent and child links whatever ids the callers pass.
-/

namespace BarryOS.Fs

open Lib List Option Nat

variable {t : Vfs} {v : Vnode} {parentId id j : UInt64} {name : Str}

namespace Vfs

/-! ## The table as a map -/

theorem findSlot_some {i : Nat} (h : t.findSlot id = some i) : id ≠ 0 ∧ slotOf Vnode.id id t.vnodes = some i := by
  unfold findSlot at h
  split at h
  · cases h
  · exact ⟨by assumption, h⟩

theorem node_eq (t : Vfs) (id : UInt64) : t.node id = if id = 0 then none else recordOf Vnode.id id t.vnodes := by
  unfold node findSlot
  split
  · rfl
  cases hs : slotOf Vnode.id id t.vnodes with
  | none =>
    cases hr : recordOf Vnode.id id t.vnodes with
    | none => rfl
    | some v =>
      obtain ⟨i, hi, _⟩ := slotOf_isSome hr
      simp [hs] at hi
  | some i =>
    obtain ⟨v, get, _, found⟩ := slotOf_some hs
    simp [found, vnodeAt, get]

@[simp] theorem node_zero (t : Vfs) : t.node 0 = none := by
  simp [node_eq]

theorem node_id (h : t.node id = some v) : v.id = id ∧ id ≠ 0 := by
  rw [node_eq] at h
  split at h
  · cases h
  · exact ⟨recordOf_key h, by assumption⟩

theorem node_mem (h : t.node id = some v) : v ∈ t.vnodes := by
  rw [node_eq] at h
  split at h
  · cases h
  · exact recordOf_mem h

theorem findSlot_of_node (h : t.node id = some v) : ∃ i, t.findSlot id = some i ∧ t.vnodeAt i = v := by
  exact map_eq_some_iff.mp h

theorem findSlot_none_of_node (h : t.node id = none) : t.findSlot id = none := by
  exact map_eq_none_iff.mp h

@[simp] theorem modify_nextId (t : Vfs) (id : UInt64) (f : Vnode → Vnode) : (t.modify id f).nextId = t.nextId := by
  unfold modify
  split <;> rfl

theorem node_modify (t : Vfs) (id : UInt64) (f : Vnode → Vnode) (keeps : ∀ v, (f v).id = v.id)
    (j : UInt64) : (t.modify id f).node j = if j = id then (t.node id).map f else t.node j := by
  unfold modify
  cases hs : t.findSlot id with
  | none =>
    have absent : t.node id = none := by simp [node, hs]
    by_cases same : j = id
    · simp [same, absent]
    · simp [same]
  | some i =>
    obtain ⟨hid, slot⟩ := findSlot_some hs
    obtain ⟨v, get, hv, found⟩ := slotOf_some slot
    have here : t.vnodeAt i = v := by simp [vnodeAt, get]
    have written := recordOf_set slot ((keeps v).trans hv) j
    have there : t.node id = some v := by rw [node_eq, if_neg hid, found]
    rw [node_eq, there]
    show (if j = 0 then none else recordOf Vnode.id j (t.vnodes.set i (f (t.vnodeAt i)))) = _
    rw [here, written, node_eq]
    by_cases zero : j = 0
    · simp [zero, Ne.symm hid]
    · simp [zero]

theorem node_modify_some (hv : t.node id = some v) (f : Vnode → Vnode) (keeps : ∀ v, (f v).id = v.id) (j : UInt64) :
    (t.modify id f).node j = if j = id then some (f v) else t.node j := by
  rw [node_modify t id f keeps, hv]
  rfl

/-- The ids in use are distinct and below the counter, which has not wrapped. -/
structure Table (t : Vfs) : Prop where
  distinct : DistinctKeys Vnode.id 0 t.vnodes
  fresh : ∀ v ∈ t.vnodes, v.id.toNat < t.nextId.toNat
  started : 2 ≤ t.nextId.toNat

theorem Table.node_lt (h : Table t) (hv : t.node id = some v) : id.toNat < t.nextId.toNat := by
  have := h.fresh v (node_mem hv)
  rwa [(node_id hv).1] at this

theorem Table.node_nextId (h : Table t) : t.node t.nextId = none := by
  cases hn : t.node t.nextId with
  | none => rfl
  | some v =>
    have := h.node_lt hn
    omega

theorem Table.node_of_mem (h : Table t) (hv : v ∈ t.vnodes) (used : v.id ≠ 0) : t.node v.id = some v := by
  rw [node_eq, if_neg used]
  exact recordOf_of_mem h.distinct hv used

/-- A change in place of a record that keeps its id. -/
theorem Table.modify (h : Table t) (id : UInt64) (f : Vnode → Vnode)
    (keeps : ∀ v, (f v).id = v.id) : Table (t.modify id f) := by
  unfold Vfs.modify
  cases hs : t.findSlot id with
  | none => exact h
  | some i =>
    obtain ⟨hid, slot⟩ := findSlot_some hs
    obtain ⟨v, get, hv, _⟩ := slotOf_some slot
    have here : t.vnodeAt i = v := by simp [vnodeAt, get]
    have member : v ∈ t.vnodes := mem_of_getElem? get
    refine ⟨?_, ?_, h.started⟩
    · exact h.distinct.set_same slot hid (by rw [here, keeps v, hv])
    · intro a ha
      rcases mem_or_eq_of_mem_set ha with ha | rfl
      · exact h.fresh a ha
      rw [here, keeps v]
      exact h.fresh v member

theorem Table.insert (h : Table t) {slot : Nat} (hs : t.allocSlot = some slot)
    (hv : v.id = t.nextId) (room : t.nextId.toNat + 1 < 2 ^ 64) :
    Table ({ t with nextId := t.nextId + 1 }.setSlot slot v) ∧
      ∀ j, ({ t with nextId := t.nextId + 1 }.setSlot slot v).node j = if j = t.nextId then some v else t.node j := by
  have next : (t.nextId + 1).toNat = t.nextId.toNat + 1 := by
    rw [UInt64.toNat_add, UInt64.toNat_one, mod_eq_of_lt room]
  have notZero : t.nextId ≠ 0 := by
    intro e
    have := h.started
    rw [e] at this
    simp at this
  have absent : recordOf Vnode.id t.nextId t.vnodes = none := by
    have := h.node_nextId
    rwa [node_eq, if_neg notZero] at this
  constructor
  · refine ⟨?_, ?_, ?_⟩
    · refine h.distinct.set slot v (.inr ?_)
      intro j a _ ha
      rw [hv]
      exact recordOf_eq_none.mp absent a (mem_of_getElem? ha)
    · intro a ha
      show a.id.toNat < (t.nextId + 1).toNat
      rw [next]
      rcases mem_or_eq_of_mem_set ha with ha | rfl
      · exact lt_succ_of_lt (h.fresh a ha)
      rw [hv]
      omega
    · show 2 ≤ (t.nextId + 1).toNat
      have := h.started
      omega
  · intro j
    rw [node_eq, node_eq]
    by_cases zero : j = 0
    · simp [zero, Ne.symm notZero]
    simp only [zero]
    exact recordOf_set_new hs hv absent j zero

theorem Table.remove (h : Table t) {slot : Nat} (hs : t.findSlot id = some slot) : Table (t.setSlot slot {}) ∧
      ∀ j, (t.setSlot slot {}).node j = if j = id then none else t.node j := by
  obtain ⟨hid, found⟩ := findSlot_some hs
  constructor
  · refine ⟨h.distinct.set slot {} (.inl rfl), ?_, h.started⟩
    intro a ha
    rcases mem_or_eq_of_mem_set ha with ha | rfl
    · exact h.fresh a ha
    have := h.started
    show (0 : UInt64).toNat < t.nextId.toNat
    simp only [UInt64.toNat_zero]
    omega
  · intro j
    rw [node_eq, node_eq]
    by_cases zero : j = 0
    · simp [zero]
    simp only [zero]
    exact recordOf_set_free h.distinct found hid rfl j zero

/-! ## The calls -/

/-- A name that is found is the name of a listed child. -/
theorem lookup_found (h : t.lookup parentId name ≠ 0) :
    ∃ p c, t.node parentId = some p ∧ t.lookup parentId name ∈ p.childIds ∧
      t.node (t.lookup parentId name) = some c ∧ c.name = name.bytes := by
  unfold lookup at h ⊢
  cases hp : t.node parentId with
  | none => simp [hp] at h
  | some p =>
    simp only [hp] at h ⊢
    cases hf : p.childIds.find? fun cid => (t.node cid).any fun c => c.name == name.bytes with
    | none => simp [hf] at h
    | some cid =>
      have named := find?_some hf
      cases hc : t.node cid with
      | none => simp [hc] at named
      | some c => exact ⟨p, c, rfl, mem_of_find?_eq_some hf, hc, by simpa [hc] using named⟩

/-- A name that is not found is the name of no listed child. -/
theorem lookup_absent (h : t.lookup parentId name = 0)
    {p c : Vnode} (hp : t.node parentId = some p) {cid : UInt64} (listed : cid ∈ p.childIds)
    (hc : t.node cid = some c) : c.name ≠ name.bytes := by
  intro named
  unfold lookup at h
  simp only [hp] at h
  cases hf : p.childIds.find? fun cid => (t.node cid).any fun c => c.name == name.bytes with
  | none =>
    have := find?_eq_none.mp hf cid listed
    simp [hc, named] at this
  | some found =>
    have here := find?_some hf
    simp only [hf, getD_some] at h
    simp [h] at here

/-- The map after `create_node` made a node: the parent, if there is one, lists it. -/
def createdNode (t : Vfs) (new : Vnode) (j : UInt64) : Option Vnode :=
  (if j = t.nextId then some new else t.node j).map fun v =>
    { v with childIds := v.childIds ++ if j = new.parentId then [t.nextId] else [] }

/-- The counter is not at its end when an id is taken. -/
def CountsOn (t : Vfs) (parentId : UInt64) (name : Str) : Prop :=
  t.mayCreate parentId name = true → t.nextId.toNat + 1 < 2 ^ 64

variable {p : Vnode}

theorem mayCreate_childCount (h : t.mayCreate parentId name = true) (hp : t.node parentId = some p) :
    p.childIds.length < maxChildren := by
  simp only [mayCreate, Bool.and_eq_true] at h
  simpa [childCount, hp] using h.2

theorem createNode_cases (h : Table t) (ids : UInt32 × UInt32)
    (vtype : VnodeType) (room : t.CountsOn parentId name) : Table (createNode ids t parentId name vtype).2 ∧
      ((createNode ids t parentId name vtype).1 = 0 ∧
          (∀ j, (createNode ids t parentId name vtype).2.node j = t.node j) ∨
        (createNode ids t parentId name vtype).1 = t.nextId ∧
          t.mayCreate parentId name = true ∧ t.allocSlot.isSome = true ∧
          ∀ j, (createNode ids t parentId name vtype).2.node j =
            t.createdNode (newNode ids t.nextId parentId name vtype) j) := by
  unfold createNode
  cases may : t.mayCreate parentId name with
  | false => exact ⟨h, .inl ⟨rfl, fun _ => rfl⟩⟩
  | true =>
    have room := room may
    simp only [Bool.not_true, Bool.false_eq_true, ↓reduceIte]
    have sameSlot : allocSlot { t with nextId := t.nextId + 1 } = t.allocSlot := rfl
    rw [sameSlot]
    cases hs : t.allocSlot with
    | none =>
      refine ⟨⟨h.distinct, ?_, ?_⟩, .inl ⟨rfl, fun _ => rfl⟩⟩
      · intro v hv
        have := h.fresh v hv
        rw [UInt64.toNat_add, UInt64.toNat_one]
        omega
      · have := h.started
        rw [UInt64.toNat_add, UInt64.toNat_one]
        omega
    | some slot =>
      obtain ⟨table, nodes⟩ := h.insert (v := newNode ids t.nextId parentId name vtype) hs rfl room
      have keeps : ∀ v : Vnode, (if v.childIds.length < maxChildren then
          { v with childIds := v.childIds ++ [t.nextId] } else v).id = v.id := by
        intro v
        split <;> rfl
      refine ⟨table.modify parentId _ keeps, .inr ⟨rfl, trivial, rfl, ?_⟩⟩
      intro j
      unfold linkChild
      rw [node_modify _ _ _ keeps, nodes, nodes]
      unfold createdNode
      have itsParent : (newNode ids t.nextId parentId name vtype).parentId = parentId := rfl
      rw [itsParent]
      by_cases same : j = parentId
      · subst same
        simp only [↓reduceIte]
        by_cases own : j = t.nextId
        · rw [if_pos own]
          rfl
        rw [if_neg own]
        cases hp : t.node j with
        | none => rfl
        | some p =>
          have few := mayCreate_childCount may hp
          simp [few]
      · simp only [same, ↓reduceIte, append_nil]
        cases (if j = t.nextId then some (newNode ids t.nextId parentId name vtype) else t.node j) <;>
          rfl

/-- The map after `unlink` removed a child. -/
def unlinkedNode (t : Vfs) (parentId id j : UInt64) : Option Vnode :=
  if j = id then none
  else (t.node j).map fun v =>
    { v with childIds := if j = parentId then v.childIds.erase id else v.childIds }

theorem unlinkedNode_old {w : Vnode} (hw : t.node j = some w) (other : j ≠ id) : t.unlinkedNode parentId id j =
      some { w with childIds := if j = parentId then w.childIds.erase id else w.childIds } := by
  rw [unlinkedNode, if_neg other, hw]
  rfl

theorem unlinkedNode_some (h : t.unlinkedNode parentId id j = some v) : j ≠ id ∧ ∃ w, t.node j = some w ∧
      v = { w with childIds := if j = parentId then w.childIds.erase id else w.childIds } := by
  unfold unlinkedNode at h
  split at h
  · cases h
  obtain ⟨w, hw, rfl⟩ := map_eq_some_iff.mp h
  exact ⟨by assumption, w, hw, rfl⟩

theorem unlink_cases (h : Table t) (parentId : UInt64) (name : Str) :
    ((t.unlink parentId name).1 = false ∧ (t.unlink parentId name).2 = t) ∨
      ((t.unlink parentId name).1 = true ∧ Table (t.unlink parentId name).2 ∧
        ∃ p c, t.node parentId = some p ∧ t.lookup parentId name ∈ p.childIds ∧
          t.node (t.lookup parentId name) = some c ∧ (c.vtype = .dir → c.childIds = []) ∧
          ∀ j, (t.unlink parentId name).2.node j = t.unlinkedNode parentId (t.lookup parentId name) j) := by
  unfold unlink
  dsimp only
  split
  · exact .inl ⟨rfl, rfl⟩
  rename_i found
  obtain ⟨p, c, hp, listed, hc, _⟩ := lookup_found found
  generalize t.lookup parentId name = id at *
  split
  · exact .inl ⟨rfl, rfl⟩
  rename_i notFull
  have keeps : ∀ v : Vnode, { v with childIds := v.childIds.erase id }.id = v.id := fun _ => rfl
  have unlisted : t.unlinkChild parentId id =
      (true, t.modify parentId fun p => { p with childIds := p.childIds.erase id }) := by
    simp [unlinkChild, hp, listed]
  rw [unlisted]
  have table := h.modify parentId _ keeps
  have nodes := node_modify t parentId _ keeps
  have there : (t.modify parentId fun p => { p with childIds := p.childIds.erase id }).node id ≠ none := by
    rw [nodes]
    split <;> simp_all
  obtain ⟨v, hv⟩ := ne_none_iff_exists'.mp there
  obtain ⟨slot, hs, _⟩ := findSlot_of_node hv
  obtain ⟨table', nodes'⟩ := table.remove hs
  right
  simp only [Bool.not_true, Bool.false_eq_true, ↓reduceIte, hs]
  refine ⟨trivial, table', p, c, hp, listed, hc, ?_, ?_⟩
  · intro dir
    simp only [getType, hc, map_some, dir, childCount, true_and, not_lt, le_zero] at notFull
    exact eq_nil_of_length_eq_zero notFull
  · intro j
    rw [nodes', nodes, unlinkedNode]
    by_cases gone : j = id
    · simp [gone]
    by_cases same : j = parentId
    · subst same
      simp
    simp only [same]
    cases t.node j <;> rfl

/-- The map after `rename` renamed a child. -/
def renamedNode (t : Vfs) (id : UInt64) (new : Str) (j : UInt64) : Option Vnode :=
  (t.node j).map fun v => if j = id then v.setName new else v

variable {new : Str}

theorem renamedNode_old {w : Vnode} (hw : t.node j = some w) :
    t.renamedNode id new j = some (if j = id then w.setName new else w) := by
  rw [renamedNode, hw]
  rfl

theorem renamedNode_some (h : t.renamedNode id new j = some v) :
    ∃ w, t.node j = some w ∧ v = if j = id then w.setName new else w := by
  obtain ⟨w, hw, rfl⟩ := map_eq_some_iff.mp h
  exact ⟨w, hw, rfl⟩

theorem renamed_links (id j : UInt64) (new : Str) (w : Vnode) :
    (if j = id then w.setName new else w).childIds = w.childIds ∧
      (if j = id then w.setName new else w).parentId = w.parentId ∧
      (if j = id then w.setName new else w).vtype = w.vtype := by
  split <;> exact ⟨rfl, rfl, rfl⟩

theorem rename_cases (h : Table t) (parentId : UInt64) (old new : Str) :
    ((t.rename parentId old new).1 = false ∧ (t.rename parentId old new).2 = t) ∨
      ((t.rename parentId old new).1 = true ∧ Table (t.rename parentId old new).2 ∧
        new.bytes ≠ [] ∧ new.bytes.length ≤ maxName ∧
        ∃ p c, t.node parentId = some p ∧ t.lookup parentId old ∈ p.childIds ∧ t.node (t.lookup parentId old) = some c ∧
          (t.lookup parentId new = 0 ∨ t.lookup parentId new = t.lookup parentId old) ∧
          ∀ j, (t.rename parentId old new).2.node j = t.renamedNode (t.lookup parentId old) new j) := by
  unfold rename
  split
  · exact .inl ⟨rfl, rfl⟩
  rename_i sized
  dsimp only
  split
  · exact .inl ⟨rfl, rfl⟩
  rename_i found
  obtain ⟨p, c, hp, listed, hc, _⟩ := lookup_found found
  generalize t.lookup parentId old = id at *
  split
  · exact .inl ⟨rfl, rfl⟩
  rename_i notTaken
  have keeps : ∀ v : Vnode, (v.setName new).id = v.id := fun _ => rfl
  obtain ⟨slot, hs, hslot⟩ := findSlot_of_node hc
  have written : t.setSlot slot ((t.vnodeAt slot).setName new) = t.modify id fun v => v.setName new := by
    simp [Vfs.modify, hs]
  right
  simp only [hs]
  rw [written]
  simp only [Bool.or_eq_true, List.isEmpty_iff, decide_eq_true_eq, not_or, not_lt] at sized
  refine ⟨trivial, h.modify id _ keeps, sized.1, sized.2, p, c, hp, listed, hc, ?_, ?_⟩
  · by_cases zero : t.lookup parentId new = 0
    · exact .inl zero
    right
    by_contra other
    exact notTaken ⟨zero, other⟩
  · intro j
    rw [node_modify _ _ _ keeps, renamedNode]
    by_cases same : j = id
    · simp [same]
    simp only [same]
    cases t.node j <;> rfl

/-! ## Links -/

/-- What holds of the links and the names, whatever ids the callers pass. A listed child
exists and points back at the node that lists it; ids grow downwards, except that a node
made under its own id-to-be lists itself. -/
structure Linked (t : Vfs) : Prop extends Table t where
  root : ∃ r, t.node rootId = some r ∧ r.vtype = .dir ∧ r.parentId = 0 ∧ r.name = rootNode.name
  nodup : ∀ {id p}, t.node id = some p → p.childIds.Nodup
  listed : ∀ {id p}, t.node id = some p → ∀ c ∈ p.childIds,
    id.toNat ≤ c.toNat ∧ ∃ v, t.node c = some v ∧ v.parentId = id
  few : ∀ {id p}, t.node id = some p → p.childIds.length ≤ maxChildren
  kinds : ∀ {id v}, t.node id = some v → v.vtype ≠ .symlink
  named : ∀ {id v}, t.node id = some v → validUtf8 v.name = true ∧ v.name ≠ [] ∧ v.name.length ≤ maxName
  siblings : ∀ {id p}, t.node id = some p → ∀ c ∈ p.childIds, ∀ d ∈ p.childIds, ∀ {v w},
    t.node c = some v → t.node d = some w → v.name = w.name → c = d

/-- The lister of a node is its parent, so a node is listed by one directory only. -/
theorem Linked.lister (h : Linked t) {c : UInt64}
    (hp : t.node id = some p) (hc : c ∈ p.childIds) (hv : t.node c = some v) : v.parentId = id := by
  obtain ⟨_, w, hw, parent⟩ := h.listed hp c hc
  cases hv.symm.trans hw
  exact parent

theorem Linked.root_not_listed (h : Linked t) (hp : t.node id = some p) : rootId ∉ p.childIds := by
  intro listed
  obtain ⟨r, hr, _, orphan, _⟩ := h.root
  have parent := h.lister hp listed hr
  exact (node_id hp).2 (parent.symm.trans orphan)

/-- Two vnodes that differ in ownership and data only. -/
structure SameLinks (v w : Vnode) : Prop where
  vtype : v.vtype = w.vtype
  name : v.name = w.name
  parent : v.parentId = w.parentId
  children : v.childIds = w.childIds

theorem SameLinks.refl (v : Vnode) : SameLinks v v := ⟨rfl, rfl, rfl, rfl⟩

variable {u : Vfs}

/-- A call that changes ownership and data only keeps the links. -/
theorem Linked.of_sameLinks (h : Linked t) (table : Table u)
    (back : ∀ {j v}, u.node j = some v → ∃ w, t.node j = some w ∧ SameLinks v w)
    (forth : ∀ {j w}, t.node j = some w → ∃ v, u.node j = some v ∧ SameLinks v w) : Linked u := by
  refine ⟨table, ?_, ?_, ?_, ?_, ?_, ?_, ?_⟩
  · obtain ⟨r, hr, dir, orphan, name⟩ := h.root
    obtain ⟨v, hv, same⟩ := forth hr
    exact ⟨v, hv, same.vtype.trans dir, same.parent.trans orphan, same.name.trans name⟩
  · intro j v hv
    obtain ⟨w, hw, same⟩ := back hv
    rw [same.children]
    exact h.nodup hw
  · intro j v hv c hc
    obtain ⟨w, hw, same⟩ := back hv
    obtain ⟨le, x, hx, parent⟩ := h.listed hw c (same.children ▸ hc)
    obtain ⟨y, hy, same'⟩ := forth hx
    exact ⟨le, y, hy, same'.parent.trans parent⟩
  · intro j v hv
    obtain ⟨w, hw, same⟩ := back hv
    rw [same.children]
    exact h.few hw
  · intro j v hv
    obtain ⟨w, hw, same⟩ := back hv
    rw [same.vtype]
    exact h.kinds hw
  · intro j v hv
    obtain ⟨w, hw, same⟩ := back hv
    rw [same.name]
    exact h.named hw
  · intro j v hv c hc d hd x y hx hy names
    obtain ⟨w, hw, same⟩ := back hv
    obtain ⟨x0, hx0, sameX⟩ := back hx
    obtain ⟨y0, hy0, sameY⟩ := back hy
    rw [same.children] at hc hd
    exact h.siblings hw c hc d hd hx0 hy0 (sameX.name.symm.trans (names.trans sameY.name))

theorem Linked.of_same_nodes (h : Linked t) (table : Table u) (nodes : ∀ j, u.node j = t.node j) : Linked u :=
  h.of_sameLinks table (fun hv => ⟨_, (nodes _).symm.trans hv, SameLinks.refl _⟩)
    (fun hw => ⟨_, (nodes _).trans hw, SameLinks.refl _⟩)

theorem Linked.modify (h : Linked t) (id : UInt64) (f : Vnode → Vnode)
    (keeps : ∀ v, (f v).id = v.id) (links : ∀ v, SameLinks (f v) v) : Linked (t.modify id f) := by
  have nodes := node_modify t id f keeps
  refine h.of_sameLinks (h.toTable.modify id f keeps) ?_ ?_
  · intro j v hv
    rw [nodes] at hv
    split at hv
    next here =>
      obtain ⟨w, hw, rfl⟩ := map_eq_some_iff.mp hv
      exact ⟨w, here ▸ hw, links w⟩
    · exact ⟨v, hv, SameLinks.refl v⟩
  · intro j w hw
    rw [nodes]
    split
    next here =>
      rw [here] at hw
      exact ⟨f w, by rw [hw]; rfl, links w⟩
    · exact ⟨w, hw, SameLinks.refl w⟩

theorem Linked.setData (h : Linked t) (id offset size : UInt64) : Linked (t.setData id offset size) :=
  h.modify id (fun v => { v with dataOffset := offset, size := size }) (fun _ => rfl)
    fun _ => ⟨rfl, rfl, rfl, rfl⟩

theorem Linked.setDataFull (h : Linked t) (id offset size cap : UInt64) : Linked (t.setDataFull id offset size cap) :=
  h.modify id (fun v => { v with dataOffset := offset, size := size, dataCap := cap })
    (fun _ => rfl) fun _ => ⟨rfl, rfl, rfl, rfl⟩

theorem setData_node (hv : t.node id = some v) (offset size j : UInt64) : (t.setData id offset size).node j =
      if j = id then some { v with dataOffset := offset, size := size } else t.node j :=
  node_modify_some hv (fun v => { v with dataOffset := offset, size := size }) (fun _ => rfl) j

theorem setDataFull_node (hv : t.node id = some v)
    (offset size cap j : UInt64) : (t.setDataFull id offset size cap).node j =
      if j = id then some { v with dataOffset := offset, size := size, dataCap := cap }
      else t.node j :=
  node_modify_some hv (fun v => { v with dataOffset := offset, size := size, dataCap := cap }) (fun _ => rfl) j

theorem createdNode_some {new v : Vnode} (h : t.createdNode new j = some v) :
    ∃ u, (j = t.nextId ∧ u = new ∨ j ≠ t.nextId ∧ t.node j = some u) ∧
      v = { u with childIds := u.childIds ++ if j = new.parentId then [t.nextId] else [] } := by
  obtain ⟨u, hu, rfl⟩ := map_eq_some_iff.mp h
  refine ⟨u, ?_, rfl⟩
  split at hu
  · cases hu
    exact .inl ⟨by assumption, rfl⟩
  · exact .inr ⟨by assumption, hu⟩

theorem createdNode_old (h : Table t) (new : Vnode) {u : Vnode} (hu : t.node j = some u) : t.createdNode new j =
      some { u with childIds := u.childIds ++ if j = new.parentId then [t.nextId] else [] } := by
  have other : j ≠ t.nextId := by
    intro e
    rw [e, h.node_nextId] at hu
    cases hu
  simp [createdNode, other, hu]

theorem createdNode_new (t : Vfs) (new : Vnode) : t.createdNode new t.nextId =
    some { new with childIds := new.childIds ++ if t.nextId = new.parentId then [t.nextId] else [] } := by
  simp [createdNode]

variable {vtype : VnodeType}

theorem Linked.created (h : Linked t) (ids : UInt32 × UInt32) (kind : vtype ≠ .symlink)
    (may : t.mayCreate parentId name = true) (table : Table u)
    (nodes : ∀ j, u.node j = t.createdNode (newNode ids t.nextId parentId name vtype) j) : Linked u := by
  have absent : t.lookup parentId name = 0 := by
    simp only [mayCreate, Bool.and_eq_true, decide_eq_true_eq] at may
    exact may.1.2
  have sized : name.bytes ≠ [] ∧ name.bytes.length ≤ maxName := by
    simp only [mayCreate, Bool.and_eq_true, decide_eq_true_eq, Bool.not_eq_true', isEmpty_eq_false_iff] at may
    exact may.1.1
  have newName : (newNode ids t.nextId parentId name vtype).name = name.bytes := take_of_length_le sized.2
  have old : ∀ {j v}, t.node j = some v → j.toNat < t.nextId.toNat := fun hv => h.node_lt hv
  have unlisted : ∀ {j v}, t.node j = some v → t.nextId ∉ v.childIds := by
    intro j v hv listed
    obtain ⟨_, w, hw, _⟩ := h.listed hv _ listed
    exact absurd (old hw) (lt_irrefl _)
  refine ⟨table, ?_, ?_, ?_, ?_, ?_, ?_, ?_⟩
  · obtain ⟨r, hr, dir, orphan, name⟩ := h.root
    rw [nodes, createdNode_old h.toTable _ hr]
    exact ⟨_, rfl, dir, orphan, name⟩
  · intro j v hv
    rw [nodes] at hv
    obtain ⟨w, ⟨rfl, rfl⟩ | ⟨_, hw⟩, rfl⟩ := createdNode_some hv
    · show ([] ++ _ : List UInt64).Nodup
      split <;> simp
    · refine nodup_append.mpr ⟨h.nodup hw, by split <;> simp, ?_⟩
      intro a ha b hb
      split at hb
      · rintro rfl
        rw [mem_singleton] at hb
        exact unlisted hw (hb ▸ ha)
      · simp at hb
  · intro j v hv c hc
    rw [nodes] at hv
    obtain ⟨w, hw, rfl⟩ := createdNode_some hv
    rcases mem_append.mp hc with hc | hc
    · rcases hw with ⟨_, rfl⟩ | ⟨_, hw⟩
      · exact absurd hc not_mem_nil
      obtain ⟨le, x, hx, parent⟩ := h.listed hw c hc
      rw [nodes, createdNode_old h.toTable _ hx]
      exact ⟨le, _, rfl, parent⟩
    split at hc
    next itsParent =>
      rw [mem_singleton] at hc
      subst hc
      rw [nodes, createdNode_new]
      refine ⟨?_, _, rfl, itsParent.symm⟩
      rcases hw with ⟨rfl, _⟩ | ⟨_, hw⟩
      · exact le_rfl
      · exact le_of_lt (old hw)
    · simp at hc
  · intro j v hv
    rw [nodes] at hv
    obtain ⟨w, hw, rfl⟩ := createdNode_some hv
    rw [length_append]
    split
    next itsParent =>
      rcases hw with ⟨_, rfl⟩ | ⟨_, hw⟩
      · exact (by decide : 0 + 1 ≤ maxChildren)
      have here : j = parentId := itsParent
      exact mayCreate_childCount may (here ▸ hw)
    · rcases hw with ⟨_, rfl⟩ | ⟨_, hw⟩
      · exact zero_le _
      · simpa using h.few hw
  · intro j v hv
    rw [nodes] at hv
    obtain ⟨w, ⟨_, rfl⟩ | ⟨_, hw⟩, rfl⟩ := createdNode_some hv
    · exact kind
    · exact (h.kinds hw : w.vtype ≠ .symlink)
  · intro j v hv
    rw [nodes] at hv
    obtain ⟨w, ⟨_, rfl⟩ | ⟨_, hw⟩, rfl⟩ := createdNode_some hv
    · rw [newName]
      exact ⟨name.utf8, sized⟩
    · exact (h.named hw : validUtf8 w.name = true ∧ w.name ≠ [] ∧ w.name.length ≤ maxName)
  · intro j v hv c hc d hd x y hx hy names
    rw [nodes] at hv hx hy
    obtain ⟨w, hw, rfl⟩ := createdNode_some hv
    obtain ⟨x0, hx0, rfl⟩ := createdNode_some hx
    obtain ⟨y0, hy0, rfl⟩ := createdNode_some hy
    have wasListed : ∀ {e z}, t.node e = some z →
        e ∈ w.childIds ++ (if j = parentId then [t.nextId] else []) → e ∈ w.childIds := by
      intro e z hz he
      rcases mem_append.mp he with he | he
      · exact he
      split at he
      · rw [mem_singleton] at he
        rw [he, h.node_nextId] at hz
        cases hz
      · simp at he
    -- The new name is none of its siblings'.
    have newDiffers : ∀ {e z}, t.node e = some z → e ∈ w.childIds ++ (if j = parentId then [t.nextId] else []) →
        t.nextId ∈ w.childIds ++ (if j = parentId then [t.nextId] else []) → z.name ≠ name.bytes := by
      intro e z hz he hnew
      have he := wasListed hz he
      rcases hw with ⟨_, rfl⟩ | ⟨_, hw⟩
      · exact absurd he not_mem_nil
      rcases mem_append.mp hnew with hnew | hnew
      · exact absurd hnew (unlisted hw)
      split at hnew
      next itsParent => exact lookup_absent absent (itsParent ▸ hw) he hz
      · simp at hnew
    rcases hx0 with ⟨rfl, rfl⟩ | ⟨_, hx0⟩
    · rcases hy0 with ⟨rfl, _⟩ | ⟨_, hy0⟩
      · rfl
      · exact (newDiffers hy0 hd hc (names.symm.trans newName)).elim
    rcases hy0 with ⟨rfl, rfl⟩ | ⟨_, hy0⟩
    · exact (newDiffers hx0 hc hd (names.trans newName)).elim
    rcases hw with ⟨_, rfl⟩ | ⟨_, hw⟩
    · exact absurd (wasListed hx0 hc) not_mem_nil
    · exact h.siblings hw c (wasListed hx0 hc) d (wasListed hy0 hd) hx0 hy0 names

theorem Linked.unlinked (h : Linked t) {p c : Vnode}
    (hp : t.node parentId = some p) (listed : id ∈ p.childIds) (hc : t.node id = some c)
    (table : Table u) (nodes : ∀ j, u.node j = t.unlinkedNode parentId id j) : Linked u := by
  have some_old : ∀ {j v}, u.node j = some v → j ≠ id ∧ ∃ w, t.node j = some w ∧
      v = { w with childIds := if j = parentId then w.childIds.erase id else w.childIds } :=
    fun hv => unlinkedNode_some ((nodes _).symm.trans hv)
  -- Nothing but the parent listed the child, and the parent does no more.
  have stays : ∀ {j w}, t.node j = some w → ∀ e ∈ (if j = parentId then w.childIds.erase id else w.childIds),
        e ∈ w.childIds ∧ e ≠ id := by
    intro j w hw e he
    split at he
    · exact ⟨mem_of_mem_erase he, ((h.nodup hw).mem_erase_iff.mp he).1⟩
    rename_i other
    refine ⟨he, ?_⟩
    rintro rfl
    exact other ((h.lister hw he hc).symm.trans (h.lister hp listed hc))
  refine ⟨table, ?_, ?_, ?_, ?_, ?_, ?_, ?_⟩
  · obtain ⟨r, hr, dir, orphan, name⟩ := h.root
    have other : rootId ≠ id := by
      rintro rfl
      exact h.root_not_listed hp listed
    rw [nodes, unlinkedNode_old hr other]
    exact ⟨_, rfl, dir, orphan, name⟩
  · intro j v hv
    obtain ⟨_, w, hw, rfl⟩ := some_old hv
    split
    · exact (h.nodup hw).erase id
    · exact h.nodup hw
  · intro j v hv e he
    obtain ⟨_, w, hw, rfl⟩ := some_old hv
    obtain ⟨was, other⟩ := stays hw e he
    obtain ⟨le, x, hx, parent⟩ := h.listed hw e was
    rw [nodes, unlinkedNode_old hx other]
    exact ⟨le, _, rfl, parent⟩
  · intro j v hv
    obtain ⟨_, w, hw, rfl⟩ := some_old hv
    have few := h.few hw
    split
    · exact le_trans (length_erase_le) few
    · exact few
  · intro j v hv
    obtain ⟨_, w, hw, rfl⟩ := some_old hv
    exact (h.kinds hw : w.vtype ≠ .symlink)
  · intro j v hv
    obtain ⟨_, w, hw, rfl⟩ := some_old hv
    exact (h.named hw : validUtf8 w.name = true ∧ w.name ≠ [] ∧ w.name.length ≤ maxName)
  · intro j v hv e he d hd x y hx hy names
    obtain ⟨_, w, hw, rfl⟩ := some_old hv
    obtain ⟨_, x0, hx0, rfl⟩ := some_old hx
    obtain ⟨_, y0, hy0, rfl⟩ := some_old hy
    exact h.siblings hw e (stays hw e he).1 d (stays hw d hd).1 hx0 hy0 names

theorem Linked.renamed (h : Linked t) {p c : Vnode}
    (hp : t.node parentId = some p) (listed : id ∈ p.childIds) (hc : t.node id = some c)
    (sized : new.bytes ≠ [] ∧ new.bytes.length ≤ maxName)
    (free : t.lookup parentId new = 0 ∨ t.lookup parentId new = id)
    (table : Table u) (nodes : ∀ j, u.node j = t.renamedNode id new j) : Linked u := by
  have newName : ∀ v : Vnode, (v.setName new).name = new.bytes := fun v => take_of_length_le sized.2
  have some_old : ∀ {j v}, u.node j = some v → ∃ w, t.node j = some w ∧ v = if j = id then w.setName new else w :=
    fun hv => renamedNode_some ((nodes _).symm.trans hv)
  have links := fun j w => renamed_links id j new w
  -- No other child of the parent has the new name.
  have taken : ∀ {j w e x}, t.node j = some w → id ∈ w.childIds → e ∈ w.childIds →
      t.node e = some x → x.name = new.bytes → e = id := by
    intro j w e x hw idListed he hx name
    have same : j = parentId := (h.lister hw idListed hc).symm.trans (h.lister hp listed hc)
    subst same
    cases hw.symm.trans hp
    by_cases zero : t.lookup j new = 0
    · exact absurd name (lookup_absent zero hp he hx)
    obtain ⟨q, y, hq, yListed, hy, yName⟩ := lookup_found zero
    cases hq.symm.trans hp
    have := h.siblings hp e he _ yListed hx hy (name.trans yName.symm)
    rw [this]
    exact free.resolve_left zero
  refine ⟨table, ?_, ?_, ?_, ?_, ?_, ?_, ?_⟩
  · obtain ⟨r, hr, dir, orphan, name⟩ := h.root
    have other : rootId ≠ id := by
      rintro rfl
      exact h.root_not_listed hp listed
    rw [nodes, renamedNode_old hr, if_neg other]
    exact ⟨r, rfl, dir, orphan, name⟩
  · intro j v hv
    obtain ⟨w, hw, rfl⟩ := some_old hv
    rw [(links j w).1]
    exact h.nodup hw
  · intro j v hv e he
    obtain ⟨w, hw, rfl⟩ := some_old hv
    rw [(links j w).1] at he
    obtain ⟨le, x, hx, parent⟩ := h.listed hw e he
    rw [nodes, renamedNode_old hx]
    exact ⟨le, _, rfl, (links e x).2.1.trans parent⟩
  · intro j v hv
    obtain ⟨w, hw, rfl⟩ := some_old hv
    rw [(links j w).1]
    exact h.few hw
  · intro j v hv
    obtain ⟨w, hw, rfl⟩ := some_old hv
    rw [(links j w).2.2]
    exact h.kinds hw
  · intro j v hv
    obtain ⟨w, hw, rfl⟩ := some_old hv
    split
    · rw [newName]
      exact ⟨new.utf8, sized⟩
    · exact h.named hw
  · intro j v hv e he d hd x y hx hy names
    obtain ⟨w, hw, rfl⟩ := some_old hv
    obtain ⟨x0, hx0, rfl⟩ := some_old hx
    obtain ⟨y0, hy0, rfl⟩ := some_old hy
    rw [(links j w).1] at he hd
    by_cases eIs : e = id
    · by_cases dIs : d = id
      · exact eIs.trans dIs.symm
      rw [if_pos eIs, if_neg dIs, newName] at names
      exact eIs.trans (taken hw (eIs ▸ he) hd hy0 names.symm).symm
    by_cases dIs : d = id
    · rw [if_neg eIs, if_pos dIs, newName] at names
      exact (taken hw (dIs ▸ hd) he hx0 names).trans dIs.symm
    rw [if_neg eIs, if_neg dIs] at names
    exact h.siblings hw e he d hd hx0 hy0 names

theorem reset_node (j : UInt64) : Vfs.reset.node j = if j = rootId then some rootNode else none := by
  have blank : j ≠ 0 → recordOf Vnode.id j (replicate (maxVnodes - 1) ({} : Vnode)) = none := by
    intro nonzero
    rw [recordOf_eq_none]
    intro v hv
    rw [eq_of_mem_replicate hv]
    exact Ne.symm nonzero
  rw [node_eq]
  by_cases zero : j = 0
  · subst zero
    rfl
  rw [if_neg zero]
  show recordOf Vnode.id j (rootNode :: replicate (maxVnodes - 1) {}) = _
  rw [recordOf_cons, blank zero]
  by_cases same : j = rootId
  · rw [if_pos same]
    exact if_pos same.symm
  rw [if_neg same]
  exact if_neg (Ne.symm same)

/-- A freshly reset table holds the root and nothing else. -/
theorem reset_only (h : Vfs.reset.node j = some v) : j = rootId ∧ v = rootNode := by
  rw [reset_node] at h
  split at h
  · cases h
    exact ⟨by assumption, rfl⟩
  · cases h

theorem Table.reset : Table Vfs.reset := by
  refine ⟨?_, ?_, by decide⟩
  · refine pairwise_cons.mpr ⟨?_, ?_⟩
    · intro v hv
      rw [eq_of_mem_replicate hv]
      exact .inr (by decide)
    · exact pairwise_replicate.mpr (.inr (.inl rfl))
  · intro v hv
    rcases mem_cons.mp hv with rfl | hv
    · decide
    rw [eq_of_mem_replicate hv]
    decide

theorem Linked.reset : Linked Vfs.reset := by
  refine ⟨Table.reset, ⟨rootNode, by rw [reset_node, if_pos rfl], rfl, rfl, rfl⟩, ?_, ?_, ?_, ?_, ?_, ?_⟩
  · intro j p hp
    rw [(reset_only hp).2]
    exact nodup_nil
  · intro j p hp c hc
    rw [(reset_only hp).2] at hc
    exact absurd hc not_mem_nil
  · intro j p hp
    rw [(reset_only hp).2]
    exact zero_le _
  · intro j v hv
    rw [(reset_only hv).2]
    decide
  · intro j v hv
    rw [(reset_only hv).2]
    decide
  · intro j p hp c hc
    rw [(reset_only hp).2] at hc
    exact absurd hc not_mem_nil

theorem Linked.createNode (h : Linked t) (ids : UInt32 × UInt32) (kind : vtype ≠ .symlink)
    (room : t.CountsOn parentId name) :
    Linked (Vfs.createNode ids t parentId name vtype).2 := by
  obtain ⟨table, ⟨_, same⟩ | ⟨_, may, _, nodes⟩⟩ := createNode_cases h.toTable ids vtype room
  · exact h.of_same_nodes table same
  · exact h.created ids kind may table nodes

theorem Linked.unlink (h : Linked t) (parentId : UInt64) (name : Str) : Linked (t.unlink parentId name).2 := by
  rcases unlink_cases h.toTable parentId name with ⟨_, same⟩ | ⟨_, table, p, c, hp, listed, hc, _, nodes⟩
  · rw [same]
    exact h
  · exact h.unlinked hp listed hc table nodes

theorem Linked.rename (h : Linked t) (parentId : UInt64) (old new : Str) : Linked (t.rename parentId old new).2 := by
  rcases rename_cases h.toTable parentId old new with
    ⟨_, same⟩ | ⟨_, table, nonempty, short, p, c, hp, listed, hc, free, nodes⟩
  · rw [same]
    exact h
  · exact h.renamed hp listed hc ⟨nonempty, short⟩ free table nodes

end Vfs

end BarryOS.Fs
