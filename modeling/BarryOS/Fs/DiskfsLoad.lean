import BarryOS.Fs.DiskfsInode

/-!
# Loading a disk

What the loop of `load` makes of an inode table, whatever is in it. `taken` says which inodes get a
vnode, from the table alone; `Built` ties the vnodes to them after each step.
-/

namespace BarryOS.Fs

open Lib Vfs List Function

/-! ## Which inodes are taken -/

def inodeAt (table : Block) (i : Nat) : DiskInode := unpackInode table (i * inodeSize)

section Table

variable (root : UInt32) (table : Block)

/-- Those of the inodes `l` that hang below inode `p`. -/
def hanging (l : List Nat) (p : Nat) : List Nat :=
  l.filter fun j => j ≠ root.toNat ∧ (inodeAt table j).parent.toNat = p

/-- Behind the inodes `l`, inode `i` is taken: as the root, or below one of `l` that has no child of
its name yet and still room for one. -/
def Takes (l : List Nat) (i : Nat) : Prop :=
  (inodeAt table i).used ≠ 0 ∧ (i = root.toNat ∨ let inode := inodeAt table i
    let siblings := hanging root table l inode.parent.toNat
    inode.parent.toNat ∈ l ∧ inode.nameStr.bytes ≠ [] ∧ inode.nameStr.bytes.length ≤ maxName ∧
      (∀ j ∈ siblings, (inodeAt table j).nameStr.bytes ≠ inode.nameStr.bytes) ∧ siblings.length < maxChildren)

instance (l : List Nat) (i : Nat) : Decidable (Takes root table l i) :=
  inferInstanceAs (Decidable (_ ∧ (_ ∨ _ ∧ _ ∧ _ ∧ _ ∧ _)))

/-- The inodes that are taken of the first `n`. -/
def taken : Nat → List Nat
  | 0 => []
  | n + 1 => if Takes root table (taken n) n then taken n ++ [n] else taken n

def kindAt (j : Nat) : VnodeType := if j = root.toNat then .dir else (inodeAt table j).kind

def contentsAt (d : Drive) (j : Nat) : Bytes := if j = root.toNat then [] else (inodeAt table j).contents d

/-- The room that is asked for the contents of an inode. -/
def sizeAt (j : Nat) : Nat :=
  if j ≠ root.toNat ∧ (inodeAt table j).vtype = 0 then min (inodeAt table j).size.toNat maxFileSize else 0

/-- All of the inodes hang below directories. -/
def UnderDirs (l : List Nat) : Prop :=
  ∀ j ∈ l, j ≠ root.toNat → kindAt root table (inodeAt table j).parent.toNat = .dir

variable {root table}

theorem mem_hanging {l : List Nat} {p j : Nat} :
    j ∈ hanging root table l p ↔ j ∈ l ∧ j ≠ root.toNat ∧ (inodeAt table j).parent.toNat = p := by
  simp [hanging]

theorem taken_lt {n j : Nat} (mem : j ∈ taken root table n) : j < n := by
  induction n with
  | zero => cases mem
  | succ n ih =>
    rw [taken] at mem
    split at mem
    · rcases mem_append.mp mem with old | new
      · exact Nat.lt_succ_of_lt (ih old)
      rw [mem_singleton.mp new]
      exact Nat.lt_succ_self n
    · exact Nat.lt_succ_of_lt (ih mem)

theorem taken_length_le (n : Nat) : (taken root table n).length ≤ n := by
  induction n with
  | zero => exact Nat.le_refl 0
  | succ n ih =>
    rw [taken]
    split
    · rw [length_append, length_singleton]
      omega
    · omega

theorem contentsAt_length (d : Drive) (l : List Nat) :
    (l.map (contentsAt root table d)).map length = l.map (sizeAt root table) := by
  rw [map_map]
  apply map_congr_left
  intro j _
  unfold Function.comp contentsAt sizeAt
  by_cases top : j = root.toNat
  · simp [top]
  · by_cases file : (inodeAt table j).vtype = 0 <;> simp [top, DiskInode.contents_length]

theorem taken_root {n : Nat} (some' : taken root table n ≠ []) : root.toNat ∈ taken root table n := by
  induction n with
  | zero => exact absurd rfl some'
  | succ n ih =>
    rw [taken] at some' ⊢
    split
    next takes =>
      rcases takes.2 with here | ⟨parent, _⟩
      · rw [← here]
        exact mem_append_right _ (mem_singleton_self n)
      · exact mem_append_left _ (ih (ne_nil_of_mem parent))
    next skipped =>
      rw [if_neg skipped] at some'
      exact ih some'

end Table

/-! ## The loop -/

/-- The vnode of inode `j`, when the inodes `l` have the ids in `id`. -/
structure NodeOf (root : UInt32) (table : Block) (l : List Nat) (id : Nat → UInt64) (j : Nat) (v : Vnode) : Prop where
  kind : v.vtype = kindAt root table j
  children : v.childIds = (hanging root table l j).map id
  perm : (⟨v.uid, v.gid, v.mode⟩ : Perm) = ⟨(inodeAt table j).uid, (inodeAt table j).gid, (inodeAt table j).mode⟩
  name : j ≠ root.toNat → v.name = (inodeAt table j).nameStr.bytes
  parent : j ≠ root.toNat → v.parentId = id (inodeAt table j).parent.toNat

/-- The vnodes after the inodes `l` were taken, in a filesystem that had the pool of `s`. -/
structure Built (root : UInt32) (table : Block) (d : Drive) (s : Ramfs) (l : List Nat) (st : LoadState) : Prop where
  start : l = [] → st = { fs := { s with vfs := reset } }
  linked : st.fs.vfs.Linked
  next : st.fs.vfs.nextId.toNat = max 2 (l.length + 1)
  index : ∀ j, st.idOfIndex j ≠ 0 ↔ j ∈ l
  apart : ∀ j ∈ l, ∀ k ∈ l, st.idOfIndex j = st.idOfIndex k → j = k
  top : root.toNat ∈ l → st.idOfIndex root.toNat = rootId
  parents : ∀ j ∈ l, j ≠ root.toNat → (inodeAt table j).parent.toNat ∈ l
  nodes : ∀ j ∈ l, ∃ v, st.fs.vfs.node (st.idOfIndex j) = some v ∧ NodeOf root table l st.idOfIndex j v
  placed : UnderDirs root table l → st.fs.vfs.Placed
  stored : s.pool.Counts (l.map (sizeAt root table)) → ∃ content, Stored ⟨st.fs, content⟩ ∧
    (s.pool.after (l.map (sizeAt root table))).SameRoom st.fs.pool ∧
    l.map (fun j => content (st.idOfIndex j)) = s.pool.kept (l.map (contentsAt root table d))
  spilt : ¬ s.pool.Counts (l.map (sizeAt root table)) →
    ∃ id v, st.fs.vfs.node id = some v ∧ v.dataCap ≠ 0 ∧ 2 ^ 64 ≤ v.dataOffset.toNat + v.dataCap.toNat

section Loop

variable {root : UInt32} {table : Block} {d : Drive} {s : Ramfs} {l : List Nat} {st : LoadState} {i : Nat}

theorem Built.reset (tidy : s.pool.Tidy) : Built root table d s [] { fs := { s with vfs := reset } } := by
  refine ⟨fun _ => rfl, Linked.reset, rfl, by simp, by simp, by simp, by simp, by simp, fun _ => Placed.reset,
    fun _ => ⟨_, Stored.reset tidy, Pool.SameRoom.refl _, rfl⟩, fun wraps => absurd trivial wraps⟩

/-- What `create_node` asks of a name is what the table says of it. -/
theorem Built.mayCreate_iff (h : Built root table d s l st) {p : Nat} (mem : p ∈ l) (name : Str) :
    st.fs.vfs.mayCreate (st.idOfIndex p) name = true ↔ name.bytes ≠ [] ∧ name.bytes.length ≤ maxName ∧
        (∀ j ∈ hanging root table l p, (inodeAt table j).nameStr.bytes ≠ name.bytes) ∧
        (hanging root table l p).length < maxChildren := by
  obtain ⟨v, hv, node⟩ := h.nodes p mem
  have count : st.fs.vfs.childCount (st.idOfIndex p) = (hanging root table l p).length := by
    simp [childCount, hv, node.children]
  have absent : st.fs.vfs.lookup (st.idOfIndex p) name = 0 ↔
      ∀ j ∈ hanging root table l p, (inodeAt table j).nameStr.bytes ≠ name.bytes := by
    constructor
    · intro none j hj
      obtain ⟨inList, notRoot, _⟩ := mem_hanging.mp hj
      obtain ⟨c, hc, child⟩ := h.nodes j inList
      rw [← child.name notRoot]
      exact lookup_absent none hv (by rw [node.children]; exact mem_map_of_mem hj) hc
    · intro others
      by_contra found
      obtain ⟨q, c, hq, listed, hc, cName⟩ := lookup_found found
      cases hq.symm.trans hv
      rw [node.children] at listed
      obtain ⟨j, hj, e⟩ := mem_map.mp listed
      obtain ⟨inList, notRoot, _⟩ := mem_hanging.mp hj
      obtain ⟨w, hw, child⟩ := h.nodes j inList
      rw [e] at hw
      cases hw.symm.trans hc
      exact others j hj ((child.name notRoot).symm.trans cName)
  simp only [mayCreate, count, Bool.and_eq_true, decide_eq_true_eq, Bool.not_eq_true',
    isEmpty_eq_false_iff, absent, and_assoc]

theorem Built.skip (h : Built root table d s l st) (lt : i < inodeCount) (skipped : ¬ Takes root table l i)
    (ids : UInt32 × UInt32) : loadInode ids d root st i (inodeAt table i) = st := by
  unfold loadInode
  by_cases used : (inodeAt table i).used = 0
  · exact if_pos used
  have notRoot : ¬ UInt32.ofNat i = root := by
    intro e
    refine skipped ⟨used, .inl ?_⟩
    unfold inodeCount at lt
    rw [← e, UInt32.toNat_ofNat', Nat.mod_eq_of_lt (by omega)]
  rw [if_neg used, if_neg notRoot]
  by_cases far : (inodeAt table i).parent.toNat ≥ inodeCount
  · exact if_pos far
  rw [if_neg far]
  by_cases orphan : st.idOfIndex (inodeAt table i).parent.toNat = 0
  · exact if_pos orphan
  rw [if_neg orphan]
  by_cases empty : (inodeAt table i).nameStr.bytes.isEmpty = true
  · exact if_pos empty
  have mem := (h.index _).mp orphan
  have refused : st.fs.vfs.mayCreate (st.idOfIndex (inodeAt table i).parent.toNat) (inodeAt table i).nameStr =
      false := by
    rw [Bool.eq_false_iff]
    intro may
    exact skipped ⟨used, .inr ⟨mem, (h.mayCreate_iff mem _).mp may⟩⟩
  have nothing : ∀ kind, createNode ids st.fs.vfs (st.idOfIndex (inodeAt table i).parent.toNat)
      (inodeAt table i).nameStr kind = (0, st.fs.vfs) := by
    intro kind
    simp [createNode, refused]
  unfold loadNode
  simp only [Ramfs.createDirIn, Ramfs.createFileIn, createDir, createFile, nothing, ite_self, ↓reduceIte]

/-- The inode of the root gives it its owner and mode. -/
theorem Built.ofRoot (tidy : s.pool.Tidy) (used : (inodeAt table i).used ≠ 0)
    (here : i = root.toNat) (ids : UInt32 × UInt32) :
    Built root table d s [i] (loadInode ids d root { fs := { s with vfs := Vfs.reset } } i (inodeAt table i)) := by
  have isRoot : UInt32.ofNat i = root := by
    rw [here]
    exact UInt32.ofNat_toNat
  have size : sizeAt root table i = 0 := if_neg fun h => h.1 here
  unfold loadInode
  rw [if_neg used, if_pos isRoot]
  have perm : ∃ uid gid mode, (inodeAt table i).uid = uid ∧ (inodeAt table i).gid = gid ∧
      (inodeAt table i).mode = mode :=
    ⟨_, _, _, rfl, rfl, rfl⟩
  obtain ⟨uid, gid, mode, hUid, hGid, hMode⟩ := perm
  rw [hUid, hGid, hMode]
  have stored := ((Stored.reset tidy).setOwner rootId uid gid).setMode rootId mode
  have nodes : ∀ id, ((Vfs.reset.setOwner rootId uid gid).setMode rootId mode).node id =
      if id = rootId then some { rootNode with uid := uid, gid := gid, mode := mode } else none := by
    intro id
    have owned := Vfs.node_modify Vfs.reset rootId (fun v => { v with uid := uid, gid := gid }) (fun _ => rfl)
    have moded := Vfs.node_modify (Vfs.reset.setOwner rootId uid gid) rootId (fun v => { v with mode := mode })
      (fun _ => rfl)
    rw [Vfs.setMode, moded, Vfs.setOwner, owned, owned, Vfs.reset_node, Vfs.reset_node]
    by_cases top : id = rootId
    · rw [if_pos top, if_pos top]
      rfl
    · rw [if_neg top, if_neg top, if_neg top, if_neg top]
  refine ⟨fun none => absurd none (cons_ne_nil _ _), stored.linked, rfl, ?_, ?_, ?_, ?_, ?_, ?_, ?_, ?_⟩
  · intro j
    dsimp only
    by_cases same : j = i
    · rw [same, update_self]
      exact iff_of_true (by decide) (mem_singleton_self i)
    rw [update_of_ne same]
    exact iff_of_false (fun h => h rfl) fun mem => same (mem_singleton.mp mem)
  · intro j hj k hk _
    exact (mem_singleton.mp hj).trans (mem_singleton.mp hk).symm
  · intro _
    dsimp only
    rw [← here, update_self]
  · intro j hj notRoot
    exact absurd ((mem_singleton.mp hj).trans here) notRoot
  · intro j hj
    rw [mem_singleton.mp hj]
    refine ⟨{ rootNode with uid := uid, gid := gid, mode := mode }, ?_, (if_pos here).symm, ?_, ?_,
      fun notRoot => absurd here notRoot, fun notRoot => absurd here notRoot⟩
    · dsimp only
      rw [nodes, update_self, if_pos rfl]
    · have none : hanging root table [i] i = [] := by simp [hanging, here]
      rw [none]
      rfl
    · rw [hUid, hGid, hMode]
  · intro _
    refine ⟨stored.linked, ?_⟩
    intro id v hv notRoot
    have hv := (nodes id).symm.trans hv
    rw [if_neg notRoot] at hv
    cases hv
  · intro _
    have empty : contentsAt root table d i = [] := if_pos here
    rw [map_singleton, map_singleton, size, empty]
    exact ⟨_, stored, Pool.SameRoom.refl _, rfl⟩
  · intro wraps
    rw [map_singleton, size] at wraps
    exact absurd ⟨fun nonzero => absurd rfl nonzero, trivial⟩ wraps

/-- The state after an inode below one of `l` was taken. -/
theorem Built.made (h : Built root table d s l st) {ids : UInt32 × UInt32} {st' : LoadState} (lt : i < inodeCount)
    (few : l.length ≤ i) (new : ∀ j ∈ l, j < i) (notRoot : i ≠ root.toNat) (mem : (inodeAt table i).parent.toNat ∈ l)
    (short : (inodeAt table i).nameStr.bytes.length ≤ maxName)
    (made : Made ids d st i (inodeAt table i) (st.idOfIndex (inodeAt table i).parent.toNat) st') :
    Built root table d s (l ++ [i]) st' := by
  obtain ⟨off, size, cap, nodes, wraps⟩ := made.nodes
  have fresh : i ∉ l := fun old => Nat.lt_irrefl i (new i old)
  have known : ∀ {j}, j ∈ l → st'.idOfIndex j = st.idOfIndex j := by
    intro j hj
    have other : j ≠ i := fun e => fresh (e ▸ hj)
    rw [made.index, update_of_ne other]
  have here : st'.idOfIndex i = st.fs.vfs.nextId := by
    rw [made.index, update_self]
  have older : ∀ {j}, j ∈ l → st.idOfIndex j ≠ st.fs.vfs.nextId := by
    intro j hj e
    obtain ⟨v, hv, _⟩ := h.nodes j hj
    have lt := h.linked.node_lt hv
    rw [e] at lt
    exact Nat.lt_irrefl _ lt
  have keptIds : ∀ p, (hanging root table l p).map st'.idOfIndex = (hanging root table l p).map st.idOfIndex :=
    fun p => map_congr_left fun j hj => known (mem_hanging.mp hj).1
  have below : ∀ p, hanging root table (l ++ [i]) p =
      hanging root table l p ++ if (inodeAt table i).parent.toNat = p then [i] else [] := by
    intro p
    rw [hanging, filter_append, hanging]
    by_cases mine : (inodeAt table i).parent.toNat = p <;> simp [notRoot, mine]
  have contents : contentsAt root table d i = (inodeAt table i).contents d := if_neg notRoot
  have sizes : (l ++ [i]).map (sizeAt root table) =
      l.map (sizeAt root table) ++ [((inodeAt table i).contents d).length] := by
    rw [← contentsAt_length d, map_append, map_append, contentsAt_length, map_singleton, map_singleton, contents]
  refine ⟨fun e => absurd e (by simp), made.linked, ?_, ?_, ?_, ?_, ?_, ?_, ?_, ?_, ?_⟩
  · have next := h.next
    have some' := length_pos_of_mem mem
    unfold inodeCount at lt
    rw [made.nextId, UInt64.toNat_add, UInt64.toNat_one, length_append, length_singleton]
    omega
  · intro j
    rw [mem_append, mem_singleton]
    by_cases same : j = i
    · have started := h.linked.toTable.started
      rw [same, here]
      refine iff_of_true ?_ (.inr rfl)
      intro zero
      rw [zero] at started
      exact absurd started (by decide)
    · rw [made.index, update_of_ne same, h.index]
      exact ⟨.inl, fun either => either.resolve_right same⟩
  · intro j hj k hk
    rw [mem_append, mem_singleton] at hj hk
    rcases hj with hj | rfl <;> rcases hk with hk | rfl
    · rw [known hj, known hk]
      exact h.apart j hj k hk
    · rw [known hj, here]
      intro e
      exact absurd e (older hj)
    · rw [known hk, here]
      intro e
      exact absurd e.symm (older hk)
    · exact fun _ => rfl
  · intro top
    rw [mem_append, mem_singleton] at top
    have old := top.resolve_right fun e => notRoot e.symm
    rw [known old]
    exact h.top old
  · intro j hj other
    rw [mem_append, mem_singleton] at hj
    apply mem_append_left
    rcases hj with hj | rfl
    · exact h.parents j hj other
    · exact mem
  · intro j hj
    rw [mem_append, mem_singleton] at hj
    rcases hj with hj | rfl
    · obtain ⟨v, hv, node⟩ := h.nodes j hj
      rw [known hj, nodes, createdNode_old h.linked.toTable _ hv]
      refine ⟨_, rfl, node.kind, ?_, node.perm, node.name, ?_⟩
      · show v.childIds ++ (if st.idOfIndex j = st.idOfIndex (inodeAt table i).parent.toNat then [st.fs.vfs.nextId]
          else []) = _
        rw [below, map_append, keptIds, node.children]
        by_cases mine : (inodeAt table i).parent.toNat = j
        · rw [if_pos mine, if_pos (by rw [mine]), map_singleton, here]
        rw [if_neg mine, if_neg fun e => mine (h.apart j hj _ mem e).symm]
        rfl
      · intro other
        rw [known (h.parents j hj other)]
        exact node.parent other
    · rw [here, nodes, createdNode_new]
      have none : hanging root table l j = [] := by
        apply eq_nil_iff_forall_not_mem.mpr
        intro k hk
        obtain ⟨inList, other, parent⟩ := mem_hanging.mp hk
        exact fresh (parent ▸ h.parents k inList other)
      have apart : (inodeAt table j).parent.toNat ≠ j := fun e => fresh (e ▸ mem)
      refine ⟨_, rfl, (if_neg notRoot).symm, ?_, rfl, fun _ => take_of_length_le short, fun _ => (known mem).symm⟩
      · show [] ++ (if st.fs.vfs.nextId = st.idOfIndex (inodeAt table j).parent.toNat then [st.fs.vfs.nextId]
          else []) = _
        rw [below, none, if_neg apart, if_neg fun e => older mem e.symm]
        rfl
  · intro dirs
    refine (h.placed fun j hj => dirs j (mem_append_left _ hj)).created made.linked nodes ?_
    obtain ⟨v, hv, node⟩ := h.nodes _ mem
    have dir := dirs i (mem_append_right _ (mem_singleton_self i)) notRoot
    show st.fs.vfs.getType (st.idOfIndex _) = _
    rw [getType, hv, Option.map_some, node.kind, dir]
  · intro counts
    rw [sizes, Pool.counts_append] at counts
    obtain ⟨content, stored, room, held⟩ := h.stored counts.1
    obtain ⟨stored', room'⟩ := made.stored content stored fun some' => room.bumps (counts.2 some')
    obtain ⟨granted, more⟩ := room.reserve ((inodeAt table i).contents d).length
    refine ⟨_, stored', ?_, ?_⟩
    · rw [sizes, Pool.after_append]
      exact more.trans room'
    · rw [map_append, map_append, map_singleton, map_singleton, Pool.kept_append, contentsAt_length, ← held,
        contents, here, update_self, granted]
      congr 1
      apply map_congr_left
      intro j hj
      rw [known hj, update_of_ne (older hj)]
  · intro wrapped
    rw [sizes, Pool.counts_append, not_and] at wrapped
    by_cases before : s.pool.Counts (l.map (sizeAt root table))
    · obtain ⟨_, _, room, _⟩ := h.stored before
      obtain ⟨some', bump⟩ := Classical.not_imp.mp (wrapped before)
      obtain ⟨taken, big⟩ := wraps some' fun fine => bump (room.symm.bumps fine)
      exact ⟨_, _, (nodes _).trans (createdNode_new ..), taken, big⟩
    obtain ⟨id, v, hv, taken, big⟩ := h.spilt before
    exact ⟨id, _, (nodes id).trans (createdNode_old h.linked.toTable _ hv), taken, big⟩

theorem Built.step (tidy : s.pool.Tidy) (h : Built root table d s (taken root table i) st) (lt : i < inodeCount)
    (ids : UInt32 × UInt32) :
    Built root table d s (taken root table (i + 1)) (loadInode ids d root st i (inodeAt table i)) := by
  rw [taken]
  split
  next takes =>
    obtain ⟨used, which⟩ := takes
    by_cases here : i = root.toNat
    · have first : taken root table i = [] := by
        by_contra some'
        exact absurd (taken_lt (taken_root some')) (by omega)
      rw [first] at h ⊢
      rw [h.start rfl]
      exact Built.ofRoot tidy used here ids
    · obtain ⟨mem, nonempty, short, others, room⟩ := which.resolve_left here
      have notRoot : ¬ UInt32.ofNat i = root := by
        intro e
        unfold inodeCount at lt
        rw [← e, UInt32.toNat_ofNat', Nat.mod_eq_of_lt (by omega)] at here
        exact here rfl
      have near : ¬ (inodeAt table i).parent.toNat ≥ inodeCount := by
        have := taken_lt mem
        omega
      have node : loadInode ids d root st i (inodeAt table i) =
          loadNode ids d st i (inodeAt table i) (st.idOfIndex (inodeAt table i).parent.toNat) := by
        unfold loadInode
        rw [if_neg used, if_neg notRoot, if_neg near]
        rw [if_neg ((h.index _).mpr mem), if_neg (by simpa using nonempty)]
      rw [node]
      refine h.made lt (taken_length_le i) (fun j hj => taken_lt hj) here mem short (loadNode_made h.linked ?_ ?_)
      · have count : (taken root table i).length ≤ i := taken_length_le i
        unfold inodeCount at lt
        rw [h.next, maxVnodes]
        omega
      · exact (h.mayCreate_iff mem _).mpr ⟨nonempty, short, others, room⟩
  next skipped =>
    rw [h.skip lt skipped]
    exact h

theorem Built.run (tidy : s.pool.Tidy) (ids : UInt32 × UInt32) (count : Nat)
    (h : Built root table d s (taken root table i) st) (inside : i + count ≤ inodeCount) :
    ∃ st', loadInodes ids d root table count i st = some st' ∧
      Built root table d s (taken root table (i + count)) st' := by
  induction count generalizing i st with
  | zero => exact ⟨st, rfl, h⟩
  | succ count ih =>
    obtain ⟨st', result, built⟩ := ih (h.step tidy (by omega) ids) (by omega)
    rw [loadInodes, if_pos (by omega)]
    rw [Nat.add_right_comm] at built
    exact ⟨st', result, built⟩

/-- More inodes than the block has end in a panic. -/
theorem loadInodes_outside (ids : UInt32 × UInt32) (count : Nat) (le : i ≤ inodeCount)
    (outside : inodeCount < i + count) : loadInodes ids d root table count i st = none := by
  induction count generalizing i st with
  | zero => omega
  | succ count ih =>
    rw [loadInodes]
    split
    · exact ih (by omega) (by omega)
    · rfl

end Loop

/-- The superblock and the inode table that `load` goes by. -/
def Drive.mounted (d : Drive) : Option (Superblock × Block) :=
  match readSuperblock d with
  | none => none
  | some sb =>
    if sb.blockSize.toNat ≠ blockSize ∨ sb.version ≠ 1 then none
    else (d.readBlock sb.inodeTableBlock).map fun table => (sb, table)

theorem load_mounted (ids : UInt32 × UInt32) (d : Drive) (s : Ramfs) : load ids d s = match d.mounted with
      | none => some (false, s)
      | some (sb, table) => (loadInodes ids d sb.rootInode table sb.inodeCount.toNat 0
          { fs := { s with vfs := reset } }).map fun st => (true, st.fs) := by
  unfold load Drive.mounted
  cases readSuperblock d with
  | none => rfl
  | some sb =>
    dsimp only
    split
    · rfl
    · cases d.readBlock sb.inodeTableBlock <;> rfl

end BarryOS.Fs
