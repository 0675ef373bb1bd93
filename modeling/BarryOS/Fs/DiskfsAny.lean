import BarryOS.Fs.DiskfsDecode
import BarryOS.Fs.DiskfsLoad

/-!
# Loading any disk

A load is safe if it ends within its buffers, leaves a tree and keeps all data in the pool. It is,
exactly where the superblock counts at most 64 inodes, no inode that is taken hangs below a file,
and the bump pointer of the pool does not wrap under the files.
-/

namespace BarryOS.Fs

open Lib

/-! ## What a load leaves -/

/-- The loop that reads contents: no block number wraps, no octet goes past the buffer, and the loop ends. -/
def Drive.InRange (d : Drive) (first : UInt32) (want : Nat) : Nat → Nat → Prop
  | 0, off => want ≤ off
  | n + 1, off => off < want → first.toNat + off / blockSize < 2 ^ 32 ∧ off + min blockSize (want - off) ≤ maxFileSize ∧
    (d.readBlock (first + UInt32.ofNat (off / blockSize)) ≠ none →
      d.InRange first want n (off + min blockSize (want - off)))

/-- A block number is only counted up behind a block that was read, so it stays small. -/
theorem Drive.inRange (d : Drive) (first : UInt32) {want : Nat} (fits : want ≤ maxFileSize) (n off : Nat)
    (whole : off < want → off % blockSize = 0 ∧ (off = 0 ∨ first.toNat + off / blockSize ≤ 1024))
    (enough : want ≤ off + n * blockSize) : d.InRange first want n off := by
  induction n generalizing off with
  | zero => exact Nat.le_trans enough (by omega)
  | succ n ih =>
    intro more
    obtain ⟨aligned, small⟩ := whole more
    have lt := first.toNat_lt
    unfold maxFileSize at fits
    unfold blockSize at *
    have near : first.toNat + off / 4096 < 2 ^ 32 := by omega
    refine ⟨near, by unfold maxFileSize; omega, ?_⟩
    intro read
    have number : (first + UInt32.ofNat (off / 4096)).toNat = first.toNat + off / 4096 := by
      rw [UInt32.toNat_add, UInt32.toNat_ofNat']
      omega
    have inDisk : first.toNat + off / 4096 < 1024 := by
      have reads : ¬ first + UInt32.ofNat (off / 4096) ≥ blockCount := fun past => read (if_pos past)
      have size : blockCount.toNat = 1024 := rfl
      rw [ge_iff_le, UInt32.le_iff_toNat_le] at reads
      omega
    apply ih
    · intro again
      omega
    · omega

/-- The data of every file lies in the pool. -/
def Ramfs.Contained (s : Ramfs) : Prop :=
  ∀ v ∈ s.vfs.vnodes, v.id ≠ 0 → v.size.toNat ≤ v.dataCap.toNat ∧ (v.dataCap ≠ 0 → InPool v.extent)

/-- `load` ends without leaving a buffer and without a block number that wraps. If it succeeds, the result
is a tree whose data lies in the pool, and if not, nothing has changed. -/
def LoadsSafely (ids : UInt32 × UInt32) (d : Drive) (s : Ramfs) : Prop :=
  (∀ i : DiskInode, d.InRange i.firstBlock (min i.size.toNat maxFileSize) 16 0) ∧
    ∃ ok r, load ids d s = some (ok, r) ∧ (ok = true → r.vfs.Tree ∧ r.Contained) ∧ (ok = false → r = s)

/-- What nobody checks of an inode table: the block holds as many inodes as the superblock counts, those that
are taken hang below directories, and the pool's bump pointer does not wrap under their contents. -/
structure Orderly (root : UInt32) (table : Block) (count : Nat) (p : Pool) : Prop where
  few : count ≤ inodeCount
  dirs : UnderDirs root table (taken root table count)
  room : p.Counts ((taken root table count).map (sizeAt root table))

section Result

variable {root : UInt32} {table : Block} {d : Drive} {s : Ramfs} {count : Nat} {st : LoadState}

theorem Built.tree_iff (h : Built root table d s (taken root table count) st) :
    st.fs.vfs.Tree ↔ UnderDirs root table (taken root table count) := by
  constructor
  · intro tree j hj notRoot
    obtain ⟨v, hv, node⟩ := h.nodes j hj
    obtain ⟨itsId, used⟩ := Vfs.node_id hv
    have top := taken_root (List.ne_nil_of_mem hj)
    have below : v.id ≠ rootId := by
      rw [itsId, ← h.top top]
      exact fun e => notRoot (h.apart _ hj _ top e)
    obtain ⟨p, hp, pUsed, pId, dir, _⟩ := tree.parent v (Vfs.node_mem hv) (itsId ▸ used) below
    obtain ⟨q, hq, parent⟩ := h.nodes _ (h.parents j hj notRoot)
    have same := h.linked.node_of_mem hp pUsed
    rw [pId, node.parent notRoot] at same
    cases same.symm.trans hq
    exact parent.kind.symm.trans dir
  · intro dirs
    exact (h.placed dirs).tree

theorem Built.room_iff (h : Built root table d s (taken root table count) st) :
    st.fs.Contained ↔ s.pool.Counts ((taken root table count).map (sizeAt root table)) := by
  constructor
  · intro contained
    by_contra wraps
    obtain ⟨id, v, hv, cap, big⟩ := h.spilt wraps
    obtain ⟨itsId, used⟩ := Vfs.node_id hv
    have stop := ((contained v (Vfs.node_mem hv) (itsId ▸ used)).2 cap).stop
    have size : dataPoolSize < 2 ^ 64 := by decide
    dsimp only [Vnode.extent] at stop
    omega
  · intro counts v hv used
    obtain ⟨content, stored, _⟩ := h.stored counts
    have node := stored.linked.node_of_mem hv used
    exact ⟨stored.sized node, fun cap => (stored.held node cap).inPool⟩

end Result

/-- Whatever is on the disk, and whatever calls made the pool as it is (short of a wrap of a counter): the load
is safe if and only if there is nothing to mount or the inode table is orderly. -/
theorem loadsSafely_iff (ops : List FsOp) (admitted : Along Ramfs.fsStep Ramfs.FsAdmits Ramfs.boot ops)
    (ids : UInt32 × UInt32) (d : Drive) :
    LoadsSafely ids d (run Ramfs.fsStep Ramfs.boot ops) ↔ ∀ sb table, d.mounted = some (sb, table) →
      Orderly sb.rootInode table sb.inodeCount.toNat (run Ramfs.fsStep Ramfs.boot ops).pool := by
  obtain ⟨content, sound⟩ := sound_of_admits admitted
  have tidy := sound.tidy
  generalize run Ramfs.fsStep Ramfs.boot ops = s at tidy ⊢
  have reads : ∀ i : DiskInode, d.InRange i.firstBlock (min i.size.toNat maxFileSize) 16 0 := fun i =>
    d.inRange i.firstBlock (Nat.min_le_right ..) 16 0 (fun _ => ⟨rfl, .inl rfl⟩) (Nat.min_le_right ..)
  rw [LoadsSafely, load_mounted]
  cases d.mounted with
  | none =>
    refine iff_of_true ⟨reads, false, s, rfl, nofun, fun _ => rfl⟩ ?_
    intro sb table mounted
    cases mounted
  | some disk =>
    obtain ⟨sb, table⟩ := disk
    dsimp only
    by_cases few : sb.inodeCount.toNat ≤ inodeCount
    · have start : Built sb.rootInode table d s (taken sb.rootInode table 0) { fs := { s with vfs := Vfs.reset } } :=
        Built.reset tidy
      obtain ⟨st, result, built⟩ := start.run tidy ids sb.inodeCount.toNat (by omega)
      rw [Nat.zero_add] at built
      rw [result]
      constructor
      · rintro ⟨_, ok, r, loaded, safe, _⟩ sb' table' mounted
        cases mounted
        cases loaded
        obtain ⟨tree, contained⟩ := safe rfl
        exact ⟨few, built.tree_iff.mp tree, built.room_iff.mp contained⟩
      · intro orderly
        obtain ⟨_, dirs, room⟩ := orderly sb table rfl
        exact ⟨reads, true, st.fs, rfl, fun _ => ⟨built.tree_iff.mpr dirs, built.room_iff.mpr room⟩, nofun⟩
    · rw [loadInodes_outside ids _ (Nat.zero_le _) (by omega)]
      constructor
      · rintro ⟨_, ok, r, loaded, _⟩
        cases loaded
      · intro orderly
        exact absurd (orderly sb table rfl).few few

/-- A root directory, a directory `d` in it and a file `f` of three octets in that one. -/
def nestedTable : Block :=
  storeBytes zeroBlock 0 (formatRoot.pack ++
    ({ formatRoot with name := 0x64 :: List.replicate 31 0 } : DiskInode).pack ++
    ({ used := 1, nameLen := 1, size := 3, parent := 1, blockCount := 1, name := 0x66 :: List.replicate 31 0 } :
      DiskInode).pack)

/-- A disk with this table; its superblock counts `count` inodes. -/
def nestedDisk (count : UInt32) : Drive where
  blocks n :=
    if n = 0 then storeBytes zeroBlock 0 ({ superblockOf 0 with inodeCount := count } : Superblock).pack
    else if n = inodeTableBlock then nestedTable
    else zeroBlock
  ok _ := true

theorem nestedDisk_mounted (count : UInt32) :
    (nestedDisk count).mounted = some ({ superblockOf 0 with inodeCount := count }, nestedTable) := by
  have super : readSuperblock (nestedDisk count) = some { superblockOf 0 with inodeCount := count } :=
    readSuperblock_pack rfl rfl
  have fits : ¬ ((superblockOf 0).blockSize.toNat ≠ blockSize ∨ (superblockOf 0).version ≠ 1) := by decide
  rw [Drive.mounted, super]
  exact if_neg fits

/-- A file that is there before the load. -/
def oneFile : List FsOp := [.ramfs (.createFile (0, 0) rootId (.letter 0)), .ramfs (.write 2 [7, 8])]

theorem nestedDisk_loads : LoadsSafely (0, 0) (nestedDisk 3) (run Ramfs.fsStep Ramfs.boot oneFile) := by
  have admitted : Along Ramfs.fsStep Ramfs.FsAdmits Ramfs.boot oneFile := by
    refine ⟨fun _ => by decide, ?_, trivial⟩
    exact fun _ _ => by decide
  refine (loadsSafely_iff oneFile admitted (0, 0) (nestedDisk 3)).mpr ?_
  intro sb table mounted
  cases (nestedDisk_mounted 3).symm.trans mounted
  have all : taken 0 nestedTable 3 = [0, 1, 2] := by decide +kernel
  have sizes : [0, 1, 2].map (sizeAt 0 nestedTable) = [0, 0, 3] := by decide +kernel
  refine ⟨by decide, ?_, ?_⟩
  · show UnderDirs 0 nestedTable (taken 0 nestedTable 3)
    rw [all, UnderDirs]
    decide +kernel
  · show Pool.Counts _ ((taken 0 nestedTable 3).map (sizeAt 0 nestedTable))
    rw [all, sizes]
    exact ⟨fun some' => absurd rfl some', fun some' => absurd rfl some', fun _ _ => by decide, trivial⟩

/-- With a count of 65 the loop leaves the inode block. -/
theorem large_count_panics : ¬ ∀ (ops : List FsOp), Along Ramfs.fsStep Ramfs.FsAdmits Ramfs.boot ops →
    ∀ (ids : UInt32 × UInt32) (d : Drive), LoadsSafely ids d (run Ramfs.fsStep Ramfs.boot ops) := by
  intro all
  obtain ⟨_, ok, r, loaded, _⟩ := all [] trivial (0, 0) (nestedDisk 65)
  rw [load_mounted, nestedDisk_mounted] at loaded
  dsimp only at loaded
  cases loaded

end BarryOS.Fs
