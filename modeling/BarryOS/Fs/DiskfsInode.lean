import BarryOS.Fs.FileTree
import BarryOS.Fs.VfsTree

/-!
# The vnode of an inode

What `load` does for one inode that it takes: a vnode is made, and its contents are written. The
result of `write_file` is ignored: a file for which the pool has no room is left empty. `Pool.kept`
says which contents that leaves.
-/

namespace BarryOS.Fs

open Lib List Vfs
open Function (update update_eq_self)

/-! ## Room in the pool -/

variable {c : Bytes}

namespace Pool

/-- Ask for `n` bytes; nothing is asked for an empty file. -/
def reserve (p : Pool) (n : Nat) : Bool × Pool :=
  if n = 0 then (true, p)
  else ((p.allocData (UInt64.ofNat n)).1 ≠ 0, (p.allocData (UInt64.ofNat n)).2)

/-- Files of these sizes, one after the other, all get their room. -/
def Grants (p : Pool) : List Nat → Prop
  | [] => True
  | n :: ns => (p.reserve n).1 = true ∧ (p.reserve n).2.Grants ns

/-- The bump pointer does not wrap on the way. -/
def Counts (p : Pool) : List Nat → Prop
  | [] => True
  | n :: ns => (n ≠ 0 → p.Bumps (UInt64.ofNat n)) ∧ (p.reserve n).2.Counts ns

/-- The contents that are left after all files asked for room. -/
def kept (p : Pool) : List Bytes → List Bytes
  | [] => []
  | c :: cs => (if (p.reserve c.length).1 then c else []) :: (p.reserve c.length).2.kept cs

variable (p : Pool) (cs : List Bytes)

theorem kept_length : (p.kept cs).length = cs.length := by
  induction cs generalizing p with
  | nil => rfl
  | cons c cs ih => rw [kept, length_cons, length_cons, ih]

/-- Nothing is lost exactly if everything is granted. -/
theorem kept_eq_iff : p.kept cs = cs ↔ p.Grants (cs.map List.length) := by
  induction cs generalizing p with
  | nil => exact ⟨fun _ => trivial, fun _ => rfl⟩
  | cons c cs ih =>
    rw [kept, map_cons, List.cons.injEq, ih]
    refine and_congr ?_ Iff.rfl
    by_cases granted : (p.reserve c.length).1 = true
    · simp [granted]
    rw [if_neg granted]
    refine ⟨fun e => ?_, fun e => absurd e granted⟩
    subst e
    exact absurd rfl granted

theorem kept_empty {p : Pool} {cs : List Bytes} {j : Nat} (hc : (p.kept cs)[j]? = some c)
    (empty : cs[j]? = some []) : c = [] := by
  induction cs generalizing p j with
  | nil => cases empty
  | cons b cs ih =>
    rw [kept] at hc
    cases j with
    | zero =>
      obtain rfl : b = [] := by simpa using empty
      exact (Option.some.inj hc).symm
    | succ j => exact ih (by simpa using hc) (by simpa using empty)

/-- The pool after files of these sizes asked for room. -/
def after (p : Pool) : List Nat → Pool
  | [] => p
  | n :: ns => (p.reserve n).2.after ns

theorem after_append (ns : List Nat) (n : Nat) : p.after (ns ++ [n]) = ((p.after ns).reserve n).2 := by
  induction ns generalizing p with
  | nil => rfl
  | cons m ns ih => exact ih _

theorem counts_append (ns : List Nat) (n : Nat) :
    p.Counts (ns ++ [n]) ↔ p.Counts ns ∧ (n ≠ 0 → (p.after ns).Bumps (UInt64.ofNat n)) := by
  induction ns generalizing p with
  | nil => simp [Counts, after]
  | cons m ns ih =>
    simp only [cons_append, Counts, ih]
    exact (and_assoc).symm

theorem kept_append (c : Bytes) : p.kept (cs ++ [c]) =
    p.kept cs ++ [if ((p.after (cs.map List.length)).reserve c.length).1 then c else []] := by
  induction cs generalizing p with
  | nil => rfl
  | cons b cs ih => exact congrArg (List.cons _) (ih _)

/-- Pools that differ in their bytes only. -/
structure SameRoom (p q : Pool) : Prop where
  next : p.nextOffset = q.nextOffset
  free : p.free = q.free

theorem SameRoom.refl : SameRoom p p := ⟨rfl, rfl⟩

theorem SameRoom.symm {p q : Pool} (h : SameRoom p q) : SameRoom q p := ⟨h.next.symm, h.free.symm⟩

theorem SameRoom.trans {p q r : Pool} (h : SameRoom p q) (g : SameRoom q r) : SameRoom p r :=
  ⟨h.next.trans g.next, h.free.trans g.free⟩

section

variable {p q : Pool} (h : SameRoom p q)

include h

theorem SameRoom.allocData (n : UInt64) :
    (p.allocData n).1 = (q.allocData n).1 ∧ SameRoom (p.allocData n).2 (q.allocData n).2 := by
  have fit : p.fit n = q.fit n := by rw [fit, fit, h.free]
  unfold Pool.allocData
  rw [fit, h.free, h.next]
  split
  · exact ⟨rfl, h⟩
  split
  · dsimp only
    split <;> exact ⟨rfl, rfl, rfl⟩
  dsimp only
  split <;> exact ⟨rfl, rfl, rfl⟩

theorem SameRoom.reserve (n : Nat) : (p.reserve n).1 = (q.reserve n).1 ∧ SameRoom (p.reserve n).2 (q.reserve n).2 := by
  obtain ⟨same, rest⟩ := h.allocData (UInt64.ofNat n)
  unfold Pool.reserve
  split
  · exact ⟨rfl, h⟩
  · exact ⟨by rw [same], rest⟩

theorem SameRoom.grants {ns : List Nat} (grants : p.Grants ns) : q.Grants ns := by
  induction ns generalizing p q with
  | nil => trivial
  | cons n ns ih =>
    obtain ⟨same, rest⟩ := h.reserve n
    exact ⟨same ▸ grants.1, ih rest grants.2⟩

theorem SameRoom.bumps {n : UInt64} (bumps : p.Bumps n) : q.Bumps n := by
  unfold Bumps fit at *
  rwa [← h.free, ← h.next]

theorem SameRoom.counts {ns : List Nat} (counts : p.Counts ns) : q.Counts ns := by
  induction ns generalizing p q with
  | nil => trivial
  | cons n ns ih =>
    obtain ⟨here, rest⟩ := counts
    exact ⟨fun nonzero => h.bumps (here nonzero), ih (h.reserve n).2 rest⟩

end

end Pool

/-! ## One vnode -/

variable {id : UInt64} {s : Ramfs} {v : Vnode}

/-- A write to a vnode that has nothing yet changes its data fields only; if the bump pointer wraps,
the extent that they name ends beyond the pool. -/
theorem Ramfs.writeFile_new (linked : s.vfs.Linked)
    (hv : s.vfs.node id = some v) (cap : v.dataCap = 0) (nonempty : c ≠ []) (small : c.length ≤ maxFileSize) :
    (s.writeFile id c).2.vfs.Linked ∧ (s.writeFile id c).2.vfs.nextId = s.vfs.nextId ∧
      ∃ off size cap', (∀ j, (s.writeFile id c).2.vfs.node j =
          if j = id then some { v with dataOffset := off, size := size, dataCap := cap' }
          else s.vfs.node j) ∧
        (¬ s.pool.Bumps (UInt64.ofNat c.length) → cap' ≠ 0 ∧ 2 ^ 64 ≤ off.toNat + cap'.toNat) := by
  have positive : c.length ≠ 0 := fun e => nonempty (eq_nil_of_length_eq_zero e)
  have len : writeLen c = c.length := Nat.min_eq_left small
  have lenNat := writeLen_toNat c
  have result := writeFile_node hv c
  rw [len] at result lenNat
  have nonzero : UInt64.ofNat c.length ≠ 0 := by
    intro e
    rw [e] at lenNat
    exact positive lenNat.symm
  have tooSmall : ¬ v.dataCap ≥ UInt64.ofNat c.length := by
    rw [cap, ge_iff_le, UInt64.le_iff_toNat_le, lenNat]
    exact Nat.not_le_of_lt (Nat.pos_of_ne_zero positive)
  rw [if_neg nonzero, if_neg tooSmall] at result
  -- A wrapped pointer is small, so the request passes the check.
  have wrapped : ¬ s.pool.Bumps (UInt64.ofNat c.length) →
      (s.pool.allocData (UInt64.ofNat c.length)).1 = s.pool.nextOffset ∧
        2 ^ 64 ≤ s.pool.nextOffset.toNat + c.length := by
    intro wraps
    obtain ⟨none, big⟩ := Classical.not_imp.mp wraps
    rw [lenNat] at big
    have sum : (s.pool.nextOffset + UInt64.ofNat c.length).toNat = s.pool.nextOffset.toNat + c.length - 2 ^ 64 := by
      have lt := s.pool.nextOffset.toNat_lt
      unfold maxFileSize at small
      rw [UInt64.toNat_add]
      omega
    refine ⟨?_, Nat.le_of_not_lt big⟩
    have passes : ¬ s.pool.nextOffset + UInt64.ofNat c.length > UInt64.ofNat dataPoolSize := by
      have lt := s.pool.nextOffset.toNat_lt
      have size : (UInt64.ofNat dataPoolSize).toNat = 262144 := rfl
      unfold maxFileSize at small
      rw [gt_iff_lt, UInt64.lt_iff_toNat_lt]
      omega
    simp only [Pool.allocData, if_neg nonzero, none, if_neg passes]
  by_cases refused : (s.pool.allocData (UInt64.ofNat c.length)).1 = 0
  · rw [if_pos refused] at result
    rw [result]
    refine ⟨linked, rfl, v.dataOffset, v.size, v.dataCap, ?_, ?_⟩
    · intro j
      split
      next here => rw [here, hv]
      · rfl
    · intro wraps
      obtain ⟨start, big⟩ := wrapped wraps
      rw [← start, refused] at big
      unfold maxFileSize at small
      simp at big
      omega
  · rw [if_neg refused] at result
    rw [result]
    refine ⟨linked.setDataFull _ _ _ _, modify_nextId .., _, _, _, setDataFull_node hv _ _ _, ?_⟩
    intro wraps
    obtain ⟨start, big⟩ := wrapped wraps
    rw [start, lenNat]
    exact ⟨nonzero, big⟩

variable {content : UInt64 → Bytes}

/-- The contents are there afterwards if the pool has room. -/
theorem Stored.write_new (h : Stored ⟨s, content⟩) (hv : s.vfs.node id = some v) (cap : v.dataCap = 0)
    (empty : content id = []) (nonempty : c ≠ []) (small : c.length ≤ maxFileSize)
    (room : s.pool.Bumps (UInt64.ofNat c.length)) : Stored ⟨(s.writeFile id c).2,
        update content id (if (s.pool.reserve c.length).1 then c else [])⟩ ∧
      (s.pool.reserve c.length).2.SameRoom (s.writeFile id c).2.pool := by
  have positive : c.length ≠ 0 := fun e => nonempty (eq_nil_of_length_eq_zero e)
  have len : Ramfs.writeLen c = c.length := Nat.min_eq_left small
  have whole : c.take maxFileSize = c := take_of_length_le small
  have lenNat := writeLen_toNat c
  have result := Ramfs.writeFile_node hv c
  rw [len] at result lenNat
  have nonzero : UInt64.ofNat c.length ≠ 0 := by
    intro e
    rw [e] at lenNat
    exact positive lenNat.symm
  have reserve : s.pool.reserve c.length = (decide ((s.pool.allocData (UInt64.ofNat c.length)).1 ≠ 0),
        (s.pool.allocData (UInt64.ofNat c.length)).2) := if_neg positive
  have tooSmall : ¬ v.dataCap ≥ UInt64.ofNat c.length := by
    rw [cap, ge_iff_le, UInt64.le_iff_toNat_le, lenNat]
    exact Nat.not_le_of_lt (Nat.pos_of_ne_zero positive)
  have stored : Stored (Ledger.step ⟨s, content⟩ (.write id c)) := h.write_grow hv
    (by rw [cap, len]; exact Nat.pos_of_ne_zero positive) (by rw [len]; exact room)
  rw [if_neg nonzero, if_neg tooSmall] at result
  rw [reserve]
  by_cases refused : (s.pool.allocData (UInt64.ofNat c.length)).1 = 0
  · rw [if_pos refused] at result
    have failed : ¬ s.writeSucceeds id c := by
      rintro ⟨_, ok⟩
      rw [result, len] at ok
      exact positive ok.symm
    rw [step_write_failed failed] at stored
    constructor
    · rw [if_neg (by simpa using refused), ← empty, update_eq_self]
      exact stored
    · rw [result]
      exact Pool.SameRoom.refl _
  · rw [if_neg refused] at result
    have ok : s.writeSucceeds id c := ⟨by simp [hv], by rw [result, len, lenNat]⟩
    rw [step_write_ok ok, whole] at stored
    constructor
    · rw [if_pos (by simpa using refused)]
      exact stored
    · rw [result, cap]
      exact ⟨rfl, rfl⟩

/-- The write for a vnode that was just made; an empty file is not written to. -/
def Ramfs.writeContents (s : Ramfs) (id : UInt64) (c : Bytes) : Ramfs :=
  if c = [] then s else (s.writeFile id c).2

theorem Ramfs.writeContents_nodes (linked : s.vfs.Linked)
    (hv : s.vfs.node id = some v) (cap : v.dataCap = 0) (small : c.length ≤ maxFileSize) :
    (s.writeContents id c).vfs.Linked ∧ (s.writeContents id c).vfs.nextId = s.vfs.nextId ∧
      ∃ off size cap', (∀ j, (s.writeContents id c).vfs.node j =
          if j = id then some { v with dataOffset := off, size := size, dataCap := cap' }
          else s.vfs.node j) ∧
        (c.length ≠ 0 → ¬ s.pool.Bumps (UInt64.ofNat c.length) → cap' ≠ 0 ∧ 2 ^ 64 ≤ off.toNat + cap'.toNat) := by
  unfold writeContents
  by_cases empty : c = []
  · rw [if_pos empty]
    refine ⟨linked, rfl, v.dataOffset, v.size, v.dataCap, ?_, ?_⟩
    · intro j
      split
      next here => rw [here, hv]
      · rfl
    · intro positive
      exact absurd (by rw [empty]; rfl) positive
  · rw [if_neg empty]
    obtain ⟨linked', next, off, size, cap', nodes, wraps⟩ := writeFile_new linked hv cap empty small
    exact ⟨linked', next, off, size, cap', nodes, fun _ => wraps⟩

theorem Stored.writeContents (h : Stored ⟨s, content⟩)
    (hv : s.vfs.node id = some v) (cap : v.dataCap = 0) (none : content id = [])
    (small : c.length ≤ maxFileSize) (room : c.length ≠ 0 → s.pool.Bumps (UInt64.ofNat c.length)) :
    Stored ⟨s.writeContents id c, update content id (if (s.pool.reserve c.length).1 then c else [])⟩ ∧
      (s.pool.reserve c.length).2.SameRoom (s.writeContents id c).pool := by
  unfold Ramfs.writeContents
  by_cases empty : c = []
  · have same : update content id [] = content := by rw [← none, update_eq_self]
    rw [empty, ite_self, same]
    exact ⟨h, Pool.SameRoom.refl _⟩
  rw [if_neg empty]
  exact h.write_new hv cap none empty small (room fun e => empty (eq_nil_of_length_eq_zero e))

theorem Vfs.createNode_made {t : Vfs} (ids : UInt32 × UInt32) {parentId : UInt64} {name : Str}
    (vtype : VnodeType) (may : t.mayCreate parentId name = true) (slot : t.allocSlot.isSome = true) :
    (createNode ids t parentId name vtype).1 = t.nextId ∧
      (createNode ids t parentId name vtype).2.nextId = t.nextId + 1 := by
  obtain ⟨i, hi⟩ := Option.isSome_iff_exists.mp slot
  have sameSlot : allocSlot { t with nextId := t.nextId + 1 } = t.allocSlot := rfl
  unfold createNode
  simp only [may, Bool.not_true, Bool.false_eq_true, ↓reduceIte, sameSlot, hi]
  exact ⟨trivial, modify_nextId ..⟩

/-- As long as fewer than 64 ids were given out a slot is free. -/
theorem Vfs.Table.allocSlot_isSome {t : Vfs} (h : t.Table) (few : t.nextId.toNat ≤ maxVnodes) :
    t.allocSlot.isSome = true := by
  rw [Option.isSome_iff_ne_none]
  intro none
  have used : ∀ v ∈ t.vnodes, v.id ≠ 0 := by
    intro v hv
    simpa using List.findIdx?_eq_none_iff.mp none v hv
  have distinct : (t.vnodes.map fun v => v.id.toNat).Nodup := by
    rw [nodup_iff_pairwise_ne, pairwise_map]
    refine List.Pairwise.imp_of_mem ?_ h.distinct
    intro a b ha _ apart same
    exact apart.resolve_left (used a ha) (UInt64.toNat_inj.mp same)
  have inside : (t.vnodes.map fun v => v.id.toNat) ⊆ List.range' 1 (t.nextId.toNat - 1) := by
    intro n hn
    obtain ⟨v, hv, rfl⟩ := mem_map.mp hn
    have lt := h.fresh v hv
    have pos := Pool.toNat_pos (used v hv)
    rw [mem_range'_1]
    omega
  have count := (distinct.subperm inside).length_le
  have started := h.started
  rw [length_map, t.slots, length_range'] at count
  omega

/-! ## One inode -/

/-- `vtype` is 1 for a directory; every other value makes a file. -/
def DiskInode.kind (i : DiskInode) : VnodeType := if i.vtype = 1 then .dir else .file

/-- What is written to the vnode of an inode. -/
def DiskInode.contents (d : Drive) (i : DiskInode) : Bytes :=
  if i.vtype = 0 ∧ i.size > 0 then loadContents d i else []

theorem DiskInode.kind_ne_symlink (i : DiskInode) : i.kind ≠ .symlink := by
  unfold kind
  split <;> decide

theorem DiskInode.contents_length (d : Drive) (i : DiskInode) :
    (i.contents d).length = if i.vtype = 0 then min i.size.toNat maxFileSize else 0 := by
  have read : (loadContents d i).length = min i.size.toNat maxFileSize := loadBytes_length ..
  unfold contents
  by_cases file : i.vtype = 0
  · by_cases positive : i.size > 0
    · rw [if_pos ⟨file, positive⟩, if_pos file, read]
    have zero : i.size.toNat = 0 := by
      rw [gt_iff_lt, UInt32.lt_iff_toNat_lt, UInt32.toNat_zero] at positive
      omega
    rw [if_neg fun h => positive h.2, if_pos file, zero]
    rfl
  · rw [if_neg fun h => file h.1, if_neg file]
    rfl

theorem DiskInode.contents_small (d : Drive) (i : DiskInode) : (i.contents d).length ≤ maxFileSize := by
  rw [contents_length]
  split
  · exact Nat.min_le_right ..
  · exact Nat.zero_le _

/-- What the loop body does for an inode that may be created below `parent`. -/
structure Made (ids : UInt32 × UInt32) (d : Drive) (st : LoadState) (i : Nat) (inode : DiskInode) (parent : UInt64)
    (st' : LoadState) : Prop where
  linked : st'.fs.vfs.Linked
  index : st'.idOfIndex = update st.idOfIndex i st.fs.vfs.nextId
  nextId : st'.fs.vfs.nextId = st.fs.vfs.nextId + 1
  nodes : ∃ off size cap, (∀ j, st'.fs.vfs.node j = st.fs.vfs.createdNode
      { Vfs.newNode ids st.fs.vfs.nextId parent inode.nameStr inode.kind with
        dataOffset := off, size := size, dataCap := cap, uid := inode.uid, gid := inode.gid, mode := inode.mode } j) ∧
    ((inode.contents d).length ≠ 0 → ¬ st.fs.pool.Bumps (UInt64.ofNat (inode.contents d).length) →
      cap ≠ 0 ∧ 2 ^ 64 ≤ off.toNat + cap.toNat)
  stored : ∀ content, Stored ⟨st.fs, content⟩ →
    ((inode.contents d).length ≠ 0 → st.fs.pool.Bumps (UInt64.ofNat (inode.contents d).length)) →
      Stored ⟨st'.fs, update content st.fs.vfs.nextId
        (if (st.fs.pool.reserve (inode.contents d).length).1 then inode.contents d else [])⟩ ∧
      (st.fs.pool.reserve (inode.contents d).length).2.SameRoom st'.fs.pool

section Made

variable {ids : UInt32 × UInt32} {d : Drive} {st : LoadState} {i : Nat} {inode : DiskInode} {parent : UInt64}

/-- The calls of the loop body for an inode that is created. -/
theorem loadNode_eq (may : st.fs.vfs.mayCreate parent inode.nameStr = true)
    (slot : st.fs.vfs.allocSlot.isSome = true) (nonzero : st.fs.vfs.nextId ≠ 0) : loadNode ids d st i inode parent =
      let fs : Ramfs := { st.fs with vfs := (Vfs.createNode ids st.fs.vfs parent inode.nameStr inode.kind).2 }
      let after := fs.writeContents st.fs.vfs.nextId (inode.contents d)
      ⟨{ after with
          vfs := (after.vfs.setOwner st.fs.vfs.nextId inode.uid inode.gid).setMode st.fs.vfs.nextId inode.mode },
        update st.idOfIndex i st.fs.vfs.nextId⟩ := by
  have made := (createNode_made ids inode.kind may slot).1
  have create : (if inode.vtype = 1 then Ramfs.createDirIn ids st.fs parent inode.nameStr
      else Ramfs.createFileIn ids st.fs parent inode.nameStr) = (st.fs.vfs.nextId, { st.fs with
        vfs := (Vfs.createNode ids st.fs.vfs parent inode.nameStr inode.kind).2 }) := by
    rw [← made]
    unfold DiskInode.kind
    split <;> rfl
  have writes : (inode.vtype = 0 ∧ inode.size > 0) ↔ inode.contents d ≠ [] := by
    rw [← length_pos_iff, DiskInode.contents_length]
    by_cases file : inode.vtype = 0
    · have max : 0 < maxFileSize := by decide
      rw [if_pos file, gt_iff_lt, UInt32.lt_iff_toNat_lt, Nat.lt_min]
      exact ⟨fun h => ⟨h.2, max⟩, fun h => ⟨file, h.1⟩⟩
    rw [if_neg file]
    exact iff_of_false (fun h => file h.1) (Nat.lt_irrefl 0)
  unfold loadNode
  rw [create]
  dsimp only
  rw [if_neg nonzero]
  by_cases some' : inode.contents d = []
  · rw [if_neg fun w => writes.mp w some', Ramfs.writeContents, if_pos some']
  have contents : inode.contents d = loadContents d inode := if_pos (writes.mpr some')
  rw [if_pos (writes.mpr some'), Ramfs.writeContents, if_neg some', contents]

theorem loadNode_made (linked : st.fs.vfs.Linked) (few : st.fs.vfs.nextId.toNat ≤ maxVnodes)
    (may : st.fs.vfs.mayCreate parent inode.nameStr = true) :
    Made ids d st i inode parent (loadNode ids d st i inode parent) := by
  have slot := linked.toTable.allocSlot_isSome few
  have started := linked.toTable.started
  have nonzero : st.fs.vfs.nextId ≠ 0 := by
    intro e
    rw [e] at started
    exact absurd started (by decide)
  have room : st.fs.vfs.CountsOn parent inode.nameStr := by
    intro _
    unfold maxVnodes at few
    omega
  have kind := inode.kind_ne_symlink
  obtain ⟨id, next⟩ := createNode_made ids inode.kind may slot
  have linked' := linked.createNode ids kind room
  have which := (createNode_cases linked.toTable ids inode.kind room).2
  have created : ∀ content, Stored ⟨st.fs, content⟩ →
      Stored ⟨{ st.fs with vfs := (Vfs.createNode ids st.fs.vfs parent inode.nameStr inode.kind).2 },
        update content (Vfs.createNode ids st.fs.vfs parent inode.nameStr inode.kind).1 []⟩ :=
    fun content h => h.create ids kind room
  rw [loadNode_eq may slot nonzero]
  generalize Vfs.createNode ids st.fs.vfs parent inode.nameStr inode.kind = made at *
  obtain ⟨zero, _⟩ | ⟨_, _, _, nodes⟩ := which
  · exact absurd (id.symm.trans zero) nonzero
  rw [id] at created
  have newNode := (nodes st.fs.vfs.nextId).trans (createdNode_new st.fs.vfs _)
  obtain ⟨linked'', next', off, size, cap, after, wraps⟩ := Ramfs.writeContents_nodes
    (s := { st.fs with vfs := made.2 }) linked' newNode rfl (inode.contents_small d)
  have filled := fun content (h : Stored ⟨st.fs, content⟩) => (created content h).writeContents newNode rfl
    (Function.update_self ..) (inode.contents_small d)
  dsimp only at linked'' next' after wraps filled ⊢
  generalize Ramfs.writeContents { st.fs with vfs := made.2 } st.fs.vfs.nextId (inode.contents d) = fs at *
  have linked₂ : (fs.vfs.setOwner st.fs.vfs.nextId inode.uid inode.gid).Linked :=
    linked''.modify _ (fun v => { v with uid := inode.uid, gid := inode.gid }) (fun _ => rfl) fun _ =>
      ⟨rfl, rfl, rfl, rfl⟩
  refine ⟨linked₂.modify _ (fun v => { v with mode := inode.mode }) (fun _ => rfl) fun _ => ⟨rfl, rfl, rfl, rfl⟩,
    rfl, ?_, ⟨off, size, cap, ?_, wraps⟩, ?_⟩
  · rw [← next, ← next']
    exact (modify_nextId ..).trans (modify_nextId ..)
  · intro j
    have owned := node_modify fs.vfs st.fs.vfs.nextId
      (fun v => { v with uid := inode.uid, gid := inode.gid }) (fun _ => rfl)
    have moded := node_modify (fs.vfs.setOwner st.fs.vfs.nextId inode.uid inode.gid) st.fs.vfs.nextId
      (fun v => { v with mode := inode.mode }) (fun _ => rfl)
    rw [Vfs.setMode, moded, Vfs.setOwner, owned, owned, after, after]
    by_cases here : j = st.fs.vfs.nextId
    · rw [here, createdNode_new]
      simp
    rw [if_neg here, if_neg here, nodes]
    simp [Vfs.createdNode, here]
  · intro content h room
    obtain ⟨stored, sameRoom⟩ := filled content h room
    rw [Function.update_idem] at stored
    exact ⟨(stored.setOwner _ inode.uid inode.gid).setMode _ inode.mode, sameRoom⟩

end Made

end BarryOS.Fs
