import BarryOS.Fs.DiskfsRows

/-!
# Saving and loading

What a complete `save` leaves on the disk, and what `load` makes of it. The tree comes
back as it was exactly if the pool grants every file its room again: `load` resets the
table but not the pool, so whatever the tables held before stays reserved, and a
file that finds no room is silently left empty (`reload_loses_a_file`).
-/

namespace BarryOS.Fs

open Lib Ramfs List

/-! ## The disk after the writes -/

theorem dataBlock_inj {i j : Nat} (hi : i < 1024 - 3) (hj : j < 1024 - 3) :
    dataStartBlock + UInt32.ofNat i = dataStartBlock + UInt32.ofNat j ↔ i = j := by
  have value : ∀ {k}, k < 1024 - 3 → (dataStartBlock + UInt32.ofNat k).toNat = 3 + k := by
    intro k hk
    rw [UInt32.toNat_add, UInt32.toNat_ofNat']
    have : dataStartBlock.toNat = 3 := rfl
    omega
  rw [← UInt32.toNat_inj, value hi, value hj]
  omega

variable {rows : List (Row Entry)} {generation : UInt32}

section Blocks

variable {blocks : UInt32 → Block} {next : Nat} {cs : List Bytes} {i : Nat}

theorem applyWrites_data (blocks : UInt32 → Block) (fit : next + cs.length ≤ 1024 - 3) {c : Bytes}
    (hc : cs[i]? = some c) : applyWrites blocks (blockWrites next cs) (dataStartBlock + UInt32.ofNat (next + i)) =
      storeBytes zeroBlock 0 c := by
  induction cs generalizing blocks next i with
  | nil => cases hc
  | cons b cs ih =>
    rw [length_cons] at fit
    rw [blockWrites, applyWrites_cons]
    cases i with
    | zero =>
      obtain rfl : b = c := by simpa using hc
      rw [applyWrites_other]
      · exact Function.update_self ..
      intro w hw same
      obtain ⟨j, lt, e⟩ := mem_blockWrites hw
      rw [e, dataBlock_inj (by omega) (by omega)] at same
      omega
    | succ i =>
      rw [← Nat.add_assoc, Nat.add_right_comm]
      exact ih _ (by omega) (by simpa using hc)

theorem applyWrites_noData (fit : next + cs.length ≤ 1024 - 3) (lt : i < 1024 - 3)
    (outside : i < next ∨ next + cs.length ≤ i) :
    applyWrites blocks (blockWrites next cs) (dataStartBlock + UInt32.ofNat i) =
      blocks (dataStartBlock + UInt32.ofNat i) := by
  apply applyWrites_other
  intro w hw same
  obtain ⟨j, hj, e⟩ := mem_blockWrites hw
  rw [e, dataBlock_inj lt (by omega)] at same
  omega

/-- The data of an image, which no write to the image's head touches. -/
theorem applyWrites_image_data (blocks : UInt32 → Block)
    {ws : List (UInt32 × Block)} (fit : (dataBlocks rows).length ≤ 1024 - 3)
    (head : ∀ w ∈ ws, w ∈ headWrites rows generation) {c : Bytes} (hc : (dataBlocks rows)[i]? = some c) :
    applyWrites blocks (blockWrites 0 (dataBlocks rows) ++ ws) (dataStartBlock + UInt32.ofNat i) =
      storeBytes zeroBlock 0 c := by
  have lt := (List.getElem?_eq_some_iff.mp hc).1
  have high := (dataBlock_valid (i := i) (by omega)).2
  have there := applyWrites_data blocks (by rw [Nat.zero_add]; exact fit) hc
  rw [Nat.zero_add] at there
  rw [applyWrites_append, applyWrites_other, there]
  intro w hw same
  rw [same] at high
  rcases mem_headWrites (head w hw) with e | e | e <;> rw [e] at high <;> exact absurd high (by decide)

end Blocks

variable {blocks : UInt32 → Block}

theorem Holds.of_stored {next : Nat} {cs : List Bytes} (stored : ∀ i c, cs[i]? = some c →
      blocks (dataStartBlock + UInt32.ofNat (next + i)) = storeBytes zeroBlock 0 c) : Holds blocks next cs := by
  intro i c hc o b hb
  obtain ⟨lt, e⟩ := List.getElem?_eq_some_iff.mp hb
  have inside := storeBytes_inside c zeroBlock 0 o lt
  rw [Nat.zero_add] at inside
  rw [stored i c hc, inside, e]

variable {d : Drive}

/-- The blocks of an image: the superblock, the inode table and the data. -/
structure Imaged (blocks : UInt32 → Block) (rows : List (Row Entry)) (generation : UInt32) : Prop where
  super : blocks 0 = storeBytes zeroBlock 0 (superblockOf generation).pack
  table : blocks inodeTableBlock = tableFrom zeroBlock 0 (inodesFrom rows 0)
  data : ∀ i c, (dataBlocks rows)[i]? = some c → blocks (dataStartBlock + UInt32.ofNat i) = storeBytes zeroBlock 0 c

theorem imaged_of_writes (blocks : UInt32 → Block) (fit : (dataBlocks rows).length ≤ 1024 - 3) :
    Imaged (applyWrites blocks (imageWrites rows generation)) rows generation := by
  refine ⟨?_, ?_, fun i c hc => applyWrites_image_data blocks fit (fun _ inside => inside) hc⟩
  · rw [imageWrites, applyWrites_append]
    rfl
  · rw [imageWrites, applyWrites_append]
    rfl

theorem onDisk_of_image (loadable : Loadable rows) (fit : (dataBlocks rows).length ≤ 1024 - 3)
    (h : Imaged d.blocks rows generation) : OnDisk d rows := by
  have holds : Holds d.blocks 0 (dataBlocks rows) := by
    refine Holds.of_stored ?_
    intro i c hc
    rw [Nat.zero_add]
    exact h.data i c hc
  have result := onDisk_of_table loadable fit h.super h.table
  rwa [(readRows_eq_iff ..).mpr holds] at result

/-! ## Sizes -/

/-- The sizes of the files, in the order of `collect_order`; a directory takes no data. -/
def fileSizes (s : Ramfs) : List Nat :=
  (collectOrder s.vfs).map fun id =>
    if s.vfs.getType id = some .file then (s.vfs.getSize id).toNat else 0

variable {content : UInt64 → Bytes} {s : Ramfs}

theorem Stored.fileSizes_eq (h : Stored ⟨s, content⟩) : (contentsOf s.rows).map List.length = fileSizes s := by
  obtain ⟨_, used⟩ := collectOrder_traversal h.linked
  unfold contentsOf rows numbered fileSizes
  rw [map_map, map_map]
  apply map_congr_left
  intro id hid
  obtain ⟨v, hv⟩ := Option.ne_none_iff_exists'.mp (used id hid)
  show (s.entryAt id).content.length = _
  rw [entryAt_eq hv, h.entry_content hv]
  simp only [Vfs.getType, hv, Option.map_some, Option.some.injEq, Vfs.getSize, Option.getD_some]
  split
  · rw [h.size_eq hv]
  · rfl

/-! ## The round trip -/

theorem withContents_eq_iff {cs : List Bytes}
    (lengths : cs.length = rows.length) : rows = withContents rows cs ↔ cs = contentsOf rows := by
  induction rows generalizing cs with
  | nil =>
    obtain rfl : cs = [] := eq_nil_of_length_eq_zero lengths
    exact ⟨fun _ => rfl, fun _ => rfl⟩
  | cons r rows ih =>
    cases cs with
    | nil => cases lengths
    | cons c cs =>
      obtain ⟨⟨name, vtype, perm, content⟩, parent⟩ := r
      have rest := @ih cs (by simpa using lengths)
      simp only [withContents, contentsOf, zipWith_cons_cons, map_cons, List.cons.injEq,
        Row.mk.injEq, Entry.mk.injEq, true_and, and_true] at rest ⊢
      rw [rest, eq_comm]

theorem Stored.save_image (h : Stored ⟨s, content⟩) (saved : (save s d).1 = true) :
    (save s d).2.blocks = applyWrites d.blocks (imageWrites s.rows (nextGeneration d)) := by
  rw [save_eq h] at saved ⊢
  exact Drive.writeAll_ok saved

/-- A save that went through, then a load: the tree is the same exactly if the pool at the load
has room for every file. -/
theorem Stored.load_save {r : Ramfs} (h : Stored ⟨s, content⟩)
    (tidy : r.pool.Tidy) (ids : UInt32 × UInt32) (saved : (save s d).1 = true)
    (room : r.pool.Counts (fileSizes s)) : ∃ r', load ids (save s d).2 r = some (true, r') ∧
      (SameTree s r' ↔ r.pool.Grants (fileSizes s)) := by
  have loadable := h.loadable
  have sizes := h.fileSizes_eq
  have onDisk := onDisk_of_image loadable h.dataBlocks_fit
    (h.save_image saved ▸ imaged_of_writes d.blocks h.dataBlocks_fit)
  obtain ⟨r', result, tree⟩ := load_onDisk ids onDisk loadable tidy (by rw [sizes]; exact room)
  have lengths : (r.pool.kept (contentsOf s.rows)).length = s.rows.length := by
    rw [Pool.kept_length, contentsOf, length_map]
  refine ⟨r', result, ?_⟩
  rw [sameTree_iff_rows h.linked (withContents_levelOrder lengths loadable.order) tree,
    withContents_eq_iff lengths, Pool.kept_eq_iff, sizes]

theorem Stored.imageWrites_valid (h : Stored ⟨s, content⟩)
    (generation : UInt32) : ∀ w ∈ imageWrites s.rows generation, w.1 < blockCount := by
  intro w hw
  rcases mem_append.mp hw with hw | hw
  · obtain ⟨i, lt, e⟩ := mem_blockWrites hw
    have fit := h.dataBlocks_fit
    rw [e]
    exact (dataBlock_valid (by omega)).1
  · rcases mem_headWrites hw with e | e | e <;> rw [e] <;> decide

/-- With a disk that takes every write, `save` succeeds. -/
theorem Stored.save_succeeds (h : Stored ⟨s, content⟩) (ok : ∀ n, d.ok n = true) : (save s d).1 = true := by
  have valid := h.imageWrites_valid (nextGeneration d)
  rw [save_eq h]
  generalize imageWrites s.rows (nextGeneration d) = ws at valid
  induction ws generalizing d with
  | nil => rfl
  | cons w ws ih =>
    have here : ¬ w.1 ≥ blockCount := by
      have := valid w (by simp)
      rw [UInt32.lt_iff_toNat_lt] at this
      rw [ge_iff_le, UInt32.le_iff_toNat_le]
      omega
    simp only [Drive.writeAll, Drive.writeBlock, here, ok]
    exact ih ok fun v hv => valid v (mem_cons_of_mem _ hv)

/-- Whatever calls made the filesystem that is saved, and whatever calls led up to the load (in the
same session or after a fresh boot): if the counters do not wrap, `load` brings the saved tree back
exactly if the pool grants the files their room, one after the other. -/
theorem roundTrip_of_admits (ops ops' : List FsOp) (admitted : Along fsStep Ramfs.FsAdmits boot ops)
    (admitted' : Along fsStep Ramfs.FsAdmits boot ops') (ids : UInt32 × UInt32)
    (d : Drive) (saved : (save (run fsStep boot ops) d).1 = true) (room : (run fsStep boot ops').pool.Counts
      (fileSizes (run fsStep boot ops))) :
    ∃ r, load ids (save (run fsStep boot ops) d).2 (run fsStep boot ops') = some (true, r) ∧
      (SameTree (run fsStep boot ops) r ↔ (run fsStep boot ops').pool.Grants (fileSizes (run fsStep boot ops))) := by
  obtain ⟨content, stored⟩ := sound_of_admits admitted
  obtain ⟨_, stored'⟩ := sound_of_admits admitted'
  exact stored.load_save stored'.tidy ids saved room

/-! ## Two runs -/

/-- A blank disk that takes every write. -/
def goodDrive : Drive := { blocks := fun _ => zeroBlock, ok := fun _ => true }

/-- A directory with a file of two bytes in it. -/
def smallTree : List FsOp :=
  [.ramfs (.createDir (0, 0) rootId (.letter 3)),
    .ramfs (.createFile (0, 0) 2 (.letter 5)), .ramfs (.write 3 [1, 2])]

theorem smallTree_admits : Along fsStep Ramfs.FsAdmits boot smallTree :=
  ⟨fun _ => by decide, fun _ => by decide, fun _ _ => by decide, trivial⟩

theorem smallTree_fits : boot.pool.Counts (fileSizes (run fsStep boot smallTree)) ∧
    boot.pool.Grants (fileSizes (run fsStep boot smallTree)) := by
  have sizes : fileSizes (run fsStep boot smallTree) = [0, 0, 2] := by decide
  exact ⟨⟨fun e => absurd rfl e, fun e => absurd rfl e, fun _ _ => by decide, trivial⟩, rfl, rfl, rfl, trivial⟩

theorem roundTrip_of_smallTree : ∃ r, load (0, 0) (save (run fsStep boot smallTree) goodDrive).2 boot =
        some (true, r) ∧ SameTree (run fsStep boot smallTree) r := by
  obtain ⟨_, stored⟩ := sound_of_admits smallTree_admits
  obtain ⟨r, loaded, same⟩ := roundTrip_of_admits smallTree [] smallTree_admits trivial (0, 0) goodDrive
    (stored.save_succeeds fun _ => rfl) smallTree_fits.1
  exact ⟨r, loaded, same.mpr smallTree_fits.2⟩

/-- Two empty files in the root, with ids 2 and 3. -/
def twoEmpty : List FsOp :=
  [.ramfs (.createFile (0, 0) rootId (.letter 0)), .ramfs (.createFile (0, 0) rootId (.letter 1))]

/-- The files take the largest size there is. -/
def fillBoth : List FsOp := [.ramfs (.write 2 bigFile), .ramfs (.write 3 bigFile)]

/-- The pool holds four files of the largest size but for one byte. Two of them are saved; to the
load in the same session the old two still take their room, so that the second is lost. -/
theorem reload_loses_a_file : ¬ ∀ (ops : List FsOp) (ids : UInt32 × UInt32) (d : Drive),
      (save (run fsStep boot ops) d).1 = true → ∃ r, load ids (save (run fsStep boot ops) d).2
            (run fsStep boot ops) = some (true, r) ∧ SameTree (run fsStep boot ops) r := by
  intro claim
  have claim := claim (twoEmpty ++ fillBoth) (0, 0) goodDrive
  obtain ⟨s, hs⟩ : ∃ s, s = run fsStep boot twoEmpty := ⟨_, rfl⟩
  obtain ⟨v, hv, capV⟩ : ∃ v, s.vfs.node 2 = some v ∧ v.dataCap = 0 := by
    rw [hs]
    exact ⟨_, rfl, rfl⟩
  obtain ⟨w, hw, capW⟩ : ∃ w, s.vfs.node 3 = some w ∧ w.dataCap = 0 := by
    rw [hs]
    exact ⟨_, rfl, rfl⟩
  have free : s.pool.free = [] := by rw [hs]; rfl
  have next : s.pool.nextOffset = 1 := by rw [hs]; rfl
  have first := writeFile_bigFile hv capV free (by rw [next]; decide)
  rw [next, if_neg (by decide)] at first
  have hw' : (s.writeFile 2 bigFile).2.vfs.node 3 = some w := by
    rw [first, fill_vfs, Vfs.setDataFull_node hv]
    exact hw
  have next' : (s.writeFile 2 bigFile).2.pool.nextOffset = 65537 := by
    rw [first]
    rfl
  have second := writeFile_bigFile hw' capW (by rw [first, fill_free]; exact free) (by rw [next']; decide)
  rw [next', if_neg (by decide)] at second
  have whole : run fsStep boot (twoEmpty ++ fillBoth) = ((s.writeFile 2 bigFile).2.writeFile 3 bigFile).2 := by
    rw [run_append, ← hs]
    rfl
  have sound : Ramfs.Sound ((s.writeFile 2 bigFile).2.writeFile 3 bigFile).2 := by
    have created : s.Sound := by
      rw [hs]
      exact sound_of_admits ⟨fun _ => by decide, fun _ => by decide, trivial⟩
    have first : s.FsAdmits (.ramfs (.write 2 bigFile)) := by
      intro _ _
      rw [writeLen_bigFile, next]
      decide
    have second : (s.writeFile 2 bigFile).2.FsAdmits (.ramfs (.write 3 bigFile)) := by
      intro _ _
      rw [writeLen_bigFile, next']
      decide
    exact (created.fsStep first).fsStep second
  have sizes : fileSizes ((s.writeFile 2 bigFile).2.writeFile 3 bigFile).2 = [0, 65536, 65536] := by
    unfold fileSizes
    rw [second, first, hs]
    decide
  have pool : ((s.writeFile 2 bigFile).2.writeFile 3 bigFile).2.pool.SameRoom { nextOffset := 131073 } := by
    constructor
    · rw [second]
      rfl
    · rw [second, fill_free, first, fill_free]
      exact free
  rw [whole] at claim
  generalize ((s.writeFile 2 bigFile).2.writeFile 3 bigFile).2 = t at *
  obtain ⟨content, stored⟩ := sound
  have saved : (save t goodDrive).1 = true := stored.save_succeeds fun _ => rfl
  obtain ⟨r, loaded, lost⟩ := stored.load_save stored.tidy (0, 0) saved (by
    rw [sizes]
    exact pool.symm.counts ⟨fun e => absurd rfl e, fun _ _ => by decide, fun _ _ => by decide, trivial⟩)
  obtain ⟨r', loaded', same⟩ := claim saved
  cases (Option.some.inj (loaded.symm.trans loaded'))
  have granted := pool.grants (lost.mp same)
  rw [sizes] at granted
  exact absurd granted.2.2.1 (by decide)

end BarryOS.Fs
