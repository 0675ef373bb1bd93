import BarryOS.Fs.DiskfsDecode
import BarryOS.Fs.DiskfsLoad

/-!
# Loading rows

A disk that holds rows: every row is taken, and `load` builds their tree again, but for the contents
that find no room in the pool.
-/

namespace BarryOS.Fs

open Lib List Nat

theorem Describes.kind {d : Drive} {i : DiskInode} {r : Row Entry} (h : Describes d i r)
    (link : r.label.vtype ≠ .symlink) : i.kind = r.label.vtype := by
  unfold DiskInode.kind
  rw [h.vtype]
  cases e : r.label.vtype with
  | file => rfl
  | dir => rfl
  | symlink => exact absurd e link

theorem Describes.contents {d : Drive} {i : DiskInode} {r : Row Entry} (h : Describes d i r)
    (dirs : r.label.vtype = .dir → r.label.content = []) : i.contents d = r.label.content := by
  by_cases empty : r.label.content = []
  · apply (if_neg ?_).trans empty.symm
    intro reads
    have positive := UInt32.lt_iff_toNat_lt.mp reads.2
    rw [h.size, empty] at positive
    exact absurd positive (lt_irrefl 0)
  have file : i.vtype = 0 := by
    rw [h.vtype, if_neg fun dir => empty (dirs dir)]
  have positive : i.size > 0 := by
    rw [gt_iff_lt, UInt32.lt_iff_toNat_lt, h.size]
    exact length_pos_iff.mpr empty
  exact (if_pos ⟨file, positive⟩).trans (h.content empty)

/-- The contents of rows, in order. -/
def contentsOf (rows : List (Row Entry)) : List Bytes := rows.map fun r => r.label.content

/-- Rows with other contents. -/
def withContents (rows : List (Row Entry)) (cs : List Bytes) : List (Row Entry) :=
  zipWith (fun r c => ⟨{ r.label with content := c }, r.parent⟩) rows cs

variable {cs : List Bytes}

section Rows

variable {rows : List (Row Entry)} {d : Drive}

theorem withContents_shape (lengths : cs.length = rows.length) : (withContents rows cs).length = rows.length ∧
      parentAt (withContents rows cs) = parentAt rows := by
  constructor
  · rw [withContents, length_zipWith, lengths, min_self]
  · funext j
    unfold parentAt withContents
    rw [getElem?_zipWith]
    cases hr : rows[j]? with
    | none => rfl
    | some r =>
      have lt : j < cs.length := by
        rw [lengths]
        exact (List.getElem?_eq_some_iff.mp hr).1
      rw [getElem?_eq_getElem lt]
      rfl

theorem withContents_levelOrder (lengths : cs.length = rows.length)
    (order : LevelOrder rows) : LevelOrder (withContents rows cs) := by
  obtain ⟨count, parents⟩ := withContents_shape lengths
  obtain ⟨nonempty, root, earlier, sorted⟩ := order
  rw [← parents] at root earlier sorted
  rw [← count] at nonempty earlier sorted
  exact ⟨nonempty, root, earlier, sorted⟩

/-! ## Which rows are taken -/

section

variable (h : OnDisk d rows)

include h

theorem OnDisk.inode {k : Nat} (lt : k < rows.length) : Describes d (inodeAt (d.blocks inodeTableBlock) k) rows[k] :=
  h.inodes k _ (getElem?_eq_getElem lt)

theorem OnDisk.parent {k : Nat} (lt : k < rows.length) :
    (inodeAt (d.blocks inodeTableBlock) k).parent.toNat = parentAt rows k := by
  rw [(h.inode lt).parent, parentAt, getElem?_eq_getElem lt]
  rfl

theorem OnDisk.hanging {n : Nat} (le : n ≤ rows.length) (p : Nat) :
    hanging 0 (d.blocks inodeTableBlock) (range n) p = kidsBelow rows p n := by
  apply filter_congr
  intro j hj
  rw [h.parent (lt_of_lt_of_le (mem_range.mp hj) le)]
  rfl

theorem OnDisk.taken_range (loadable : Loadable rows) {n : Nat} (le : n ≤ rows.length) :
    taken 0 (d.blocks inodeTableBlock) n = range n := by
  induction n with
  | zero => rfl
  | succ n ih =>
    have lt : n < rows.length := le
    have describes := h.inode lt
    have member := getElem_mem lt
    rw [taken, ih (le_of_succ_le le), range_succ]
    apply if_pos
    refine ⟨by rw [describes.used]; decide, ?_⟩
    rcases Nat.eq_zero_or_pos n with zero | pos
    · exact .inl zero
    right
    obtain ⟨_, nonempty, short⟩ := loadable.named _ member
    dsimp only
    rw [h.parent lt, h.hanging (le_of_lt lt), describes.name]
    refine ⟨mem_range.mpr (loadable.order.earlier n pos lt), nonempty, short, ?_, ?_⟩
    · intro j hj same
      obtain ⟨jlt, nonzero, parent⟩ := mem_kidsBelow.mp hj
      have jRow := getElem?_eq_getElem (lt_trans jlt lt)
      rw [(h.inode (lt_trans jlt lt)).name] at same
      have := loadable.siblings j n _ _ (Nat.pos_of_ne_zero nonzero) pos jRow (getElem?_eq_getElem lt) parent same
      omega
    · have all := loadable.kids (parentAt rows n)
      obtain ⟨rest, split⟩ := kidsAt_split pos lt
      rw [split, length_append, length_cons] at all
      omega

theorem OnDisk.taken_all (loadable : Loadable rows) (n : Nat) :
    taken 0 (d.blocks inodeTableBlock) (rows.length + n) = range rows.length := by
  induction n with
  | zero => exact h.taken_range loadable le_rfl
  | succ n ih =>
    rw [← add_assoc, taken, ih]
    exact if_neg fun takes => takes.1 (h.unused _ (Nat.le_add_right ..))

theorem OnDisk.contentsAt (loadable : Loadable rows) :
    (range rows.length).map (contentsAt 0 (d.blocks inodeTableBlock) d) = contentsOf rows := by
  apply ext_getElem
  · simp [contentsOf]
  intro k hk _
  have lt : k < rows.length := by simpa using hk
  have empty := (loadable.kinds _ (getElem_mem lt)).2
  have contents := (h.inode lt).contents empty
  simp only [getElem_map, getElem_range, contentsOf]
  by_cases top : k = 0
  · obtain ⟨r, hr, _, dir⟩ := loadable.root
    subst top
    cases (getElem?_eq_getElem lt).symm.trans hr
    rw [empty dir]
    rfl
  · exact (if_neg top).trans contents

end

/-! ## The tree -/

theorem Built.tree {s : Ramfs} {st : LoadState} (h : Built 0 (d.blocks inodeTableBlock) d s (range rows.length) st)
    (onDisk : OnDisk d rows) (loadable : Loadable rows) {content : UInt64 → Bytes} (stored : Stored ⟨st.fs, content⟩)
    (contents : (range rows.length).map (fun j => content (st.idOfIndex j)) = cs)
    (noDirs : ∀ (j : Nat) r c, rows[j]? = some r → cs[j]? = some c → r.label.vtype = .dir → c = []) (n : Nat) :
    st.fs.tree n = grow (labelAt (withContents rows cs)) (kidsAt (withContents rows cs)) n 0 := by
  have lengths : cs.length = rows.length := by rw [← contents, length_map, length_range]
  obtain ⟨count, parents⟩ := withContents_shape lengths
  have nonempty := loadable.order.nonempty
  have kids : ∀ i, kidsAt (withContents rows cs) i = kidsAt rows i := by
    intro i
    rw [kidsAt, kidsAt, kidsBelow, kidsBelow, parents, count]
  have top : st.idOfIndex 0 = rootId := h.top (mem_range.mpr nonempty)
  rw [Ramfs.tree, ← top]
  refine grow_map st.idOfIndex (fun i => i < rows.length) ?_ ?_ ?_ n nonempty
  · intro i lt
    have hr := getElem?_eq_getElem lt
    have hc := getElem?_eq_getElem (show i < cs.length by omega)
    obtain ⟨v, hv, node⟩ := h.nodes i (mem_range.mpr lt)
    obtain ⟨kind, _⟩ := loadable.kinds _ (getElem_mem lt)
    have label : labelAt (withContents rows cs) i = some { rows[i].label with content := cs[i] } := by
      rw [labelAt, withContents, getElem?_zipWith, hr, hc]
      rfl
    have vtype : v.vtype = rows[i].label.vtype ∧ v.name = rows[i].label.name := by
      by_cases isRoot : i = 0
      · subst isRoot
        obtain ⟨r, hr', name, dir⟩ := loadable.root
        obtain ⟨w, hw, _, _, rootName⟩ := stored.linked.root
        cases hr.symm.trans hr'
        rw [top] at hv
        cases hv.symm.trans hw
        exact ⟨node.kind.trans dir.symm, rootName.trans name.symm⟩
      · have below : kindAt 0 (d.blocks inodeTableBlock) i = (inodeAt (d.blocks inodeTableBlock) i).kind :=
          if_neg isRoot
        rw [node.kind, node.name isRoot, below, (onDisk.inode lt).kind kind, (onDisk.inode lt).name]
        exact ⟨rfl, rfl⟩
    have content' : (st.fs.entryOf (st.idOfIndex i) v).content = cs[i] := by
      rw [stored.entry_content hv]
      split
      · simp [← contents]
      rename_i notFile
      refine (noDirs i _ _ hr hc ?_).symm
      rw [vtype.1] at notFile
      cases e : rows[i].label.vtype with
      | file => exact absurd e notFile
      | dir => rfl
      | symlink => exact absurd e kind
    rw [label, Ramfs.entry, hv]
    dsimp only
    rw [← content', ← vtype.1, ← vtype.2, ← (onDisk.inode lt).perm, ← node.perm]
    rfl
  · intro i lt
    obtain ⟨v, hv, node⟩ := h.nodes i (mem_range.mpr lt)
    rw [kids, Ramfs.children, hv, kidsAt, ← onDisk.hanging le_rfl]
    exact node.children
  · intro i _ j hj
    rw [kids] at hj
    exact (mem_kidsBelow.mp hj).1

/-- `load` of a disk that holds rows gives their tree, but for the contents that find no room. -/
theorem load_onDisk (ids : UInt32 × UInt32) (onDisk : OnDisk d rows) (loadable : Loadable rows) {s : Ramfs}
    (tidy : s.pool.Tidy) (room : s.pool.Counts ((contentsOf rows).map length)) :
    ∃ r, load ids d s = some (true, r) ∧ ∀ n, r.tree n =
      grow (labelAt (withContents rows (s.pool.kept (contentsOf rows))))
        (kidsAt (withContents rows (s.pool.kept (contentsOf rows)))) n 0 := by
  have few := loadable.few
  obtain ⟨generation, super⟩ := onDisk.superblock
  have start : Built 0 (d.blocks inodeTableBlock) d s (taken 0 (d.blocks inodeTableBlock) 0)
    { fs := { s with vfs := Vfs.reset } } := Built.reset tidy
  obtain ⟨st, result, built⟩ := start.run tidy ids inodeCount (le_of_eq (zero_add _))
  have all := onDisk.taken_all loadable (inodeCount - rows.length)
  rw [show 0 + inodeCount = rows.length + (inodeCount - rows.length) by omega, all] at built
  obtain ⟨content, stored, _, contents⟩ := built.stored (by
    rw [← contentsAt_length d, onDisk.contentsAt loadable]
    exact room)
  rw [onDisk.contentsAt loadable] at contents
  refine ⟨st.fs, ?_, built.tree onDisk loadable stored contents ?_⟩
  · have mounted : d.mounted = some (superblockOf generation, d.blocks inodeTableBlock) := by
      rw [Drive.mounted, super]
      rfl
    have whole : loadInodes ids d (superblockOf generation).rootInode (d.blocks inodeTableBlock)
        (superblockOf generation).inodeCount.toNat 0 { fs := { s with vfs := Vfs.reset } } = some st := result
    rw [load_mounted, mounted]
    dsimp only
    rw [whole]
    rfl
  · intro j r c hr hc isDir
    have empty := (loadable.kinds r (mem_of_getElem? hr)).2 isDir
    exact Pool.kept_empty hc (by rw [contentsOf, getElem?_map, hr, Option.map_some, empty])

end Rows

end BarryOS.Fs
