import BarryOS.Fs.DiskfsRoundTrip

/-!
# A save that is cut short

`save` puts the files' blocks where the old image has its own, and only then writes the
inode table over the old one. A power cut between the two leaves the old inodes with the
first of the new blocks. Once the inode table is written the image is the new one: the
old superblock points at the same table, and no later write matters to `load`.
-/

namespace BarryOS.Fs

open Lib Ramfs List Nat

/-! ## Blocks and shapes -/

theorem blockWrites_take (next k : Nat) (cs : List Bytes) :
    (blockWrites next cs).take k = blockWrites next (cs.take k) := by
  induction cs generalizing next k with
  | nil => simp [blockWrites]
  | cons c cs ih =>
    cases k with
    | zero => rfl
    | succ k => rw [blockWrites, take_succ_cons, take_succ_cons, ih, blockWrites]

/-- The lengths of the blocks are a matter of the shape. -/
theorem dataBlocks_lengths (rows : List (Row Entry)) : (dataBlocks rows).map length =
    (rows.map shapeOf).flatMap fun shape =>
      (range (blocksFor shape.2.1)).map fun j => min blockSize (shape.2.1 - j * blockSize) := by
  rw [dataBlocks, map_flatMap, flatMap_map]
  refine flatMap_congr fun r _ => ?_
  rw [chunks, map_map]
  refine map_congr_left fun j _ => ?_
  show ((r.label.content.drop (j * blockSize)).take blockSize).length = _
  rw [length_take, length_drop]
  rfl

theorem storeBytes_zeroBlock (c : Bytes) (o : Nat) : storeBytes zeroBlock 0 c o = c.getD o 0 := by
  rcases lt_or_ge o c.length with lt | ge
  · have inside := storeBytes_inside c zeroBlock 0 o lt
    rw [zero_add] at inside
    rw [inside]
    simp [lt]
  rw [storeBytes_outside _ _ _ _ (.inr (by omega))]
  simp [zeroBlock, ge]

/-- Blocks of the same lengths are equal if one holds where the other is stored. -/
theorem eq_of_stored {c c' : Bytes} (lengths : c.length = c'.length)
    (holds : ∀ o b, c'[o]? = some b → storeBytes zeroBlock 0 c o = b) : c = c' := by
  apply ext_getElem lengths
  intro o lt lt'
  rw [← holds o _ (getElem?_eq_getElem lt'), storeBytes_zeroBlock]
  simp [lt]

/-! ## What a cut leaves -/

/-- When a cut after `k` writes of the new image does no harm: the new inode table is written; or
the first `k` new blocks agree with the old files wherever these have bytes; or the trees differ in
the bytes of their files only, and not in the blocks that are still to be written. -/
def SurvivesCut (old new : Ramfs) (k : Nat) : Prop :=
  (dataBlocks new.rows).length < k ∨
    (∀ i < k, ∀ chunk, (dataBlocks old.rows)[i]? = some chunk → ∀ o b, chunk[o]? = some b →
      ((dataBlocks new.rows).getD i []).getD o 0 = b) ∨
    (SameShape old.rows new.rows ∧ ∀ i, k ≤ i → (dataBlocks old.rows)[i]? = (dataBlocks new.rows)[i]?)

section Cut

variable {blocks : UInt32 → Block} {old new : List (Row Entry)} {k : Nat}

/-- The data area after `k` of the new blocks were written over the old image. -/
structure Mixed (blocks : UInt32 → Block) (old new : List (Row Entry)) (k : Nat) : Prop where
  written : ∀ i < k, ∀ c, (dataBlocks new)[i]? = some c →
    blocks (dataStartBlock + UInt32.ofNat i) = storeBytes zeroBlock 0 c
  kept : ∀ i, k ≤ i → ∀ c, (dataBlocks old)[i]? = some c →
    blocks (dataStartBlock + UInt32.ofNat i) = storeBytes zeroBlock 0 c

/-- The old files are unharmed. -/
theorem Mixed.holds_old (h : Mixed blocks old new k) (le : k ≤ (dataBlocks new).length) :
    Holds blocks 0 (dataBlocks old) ↔ ∀ i < k, ∀ chunk, (dataBlocks old)[i]? = some chunk → ∀ o b, chunk[o]? = some b →
        ((dataBlocks new).getD i []).getD o 0 = b := by
  have newBlock : ∀ i < k, ∀ o, blocks (dataStartBlock + UInt32.ofNat i) o = ((dataBlocks new).getD i []).getD o 0 := by
    intro i lt o
    have get := getElem?_eq_getElem (lt_of_lt_of_le lt le)
    rw [h.written i lt _ get, storeBytes_zeroBlock]
    simp [get]
  constructor
  · intro holds i lt c hc o b hb
    have := holds i c hc o b hb
    rwa [zero_add, newBlock i lt] at this
  · intro agrees i c hc o b hb
    rw [zero_add]
    rcases lt_or_ge i k with lt | ge
    · rw [newBlock i lt]
      exact agrees i lt c hc o b hb
    rw [h.kept i ge c hc, storeBytes_zeroBlock]
    simp [hb]

/-- The new files are complete already. -/
theorem Mixed.holds_new (h : Mixed blocks old new k) (shape : SameShape old new) : Holds blocks 0 (dataBlocks new) ↔
      ∀ i, k ≤ i → (dataBlocks old)[i]? = (dataBlocks new)[i]? := by
  have lengths : (dataBlocks old).map length = (dataBlocks new).map length := by
    rw [dataBlocks_lengths, dataBlocks_lengths, shape]
  have count : (dataBlocks old).length = (dataBlocks new).length := by
    simpa using congrArg length lengths
  constructor
  · intro holds i ge
    rcases lt_or_ge i (dataBlocks new).length with lt | behind
    · have hnew := getElem?_eq_getElem lt
      have hold := getElem?_eq_getElem (show i < (dataBlocks old).length by omega)
      have sameLength : (dataBlocks old)[i].length = (dataBlocks new)[i].length := by
        have : ((dataBlocks old).map length)[i]? = ((dataBlocks new).map length)[i]? := by
          rw [lengths]
        simpa [hnew, hold] using this
      rw [hold, hnew, eq_of_stored sameLength]
      intro o b hb
      rw [← h.kept i ge _ hold]
      have := holds i _ hnew o b hb
      rwa [zero_add] at this
    · rw [getElem?_eq_none behind, getElem?_eq_none (by omega)]
  · intro agrees
    refine Holds.of_stored ?_
    intro i c hc
    rw [zero_add]
    rcases lt_or_ge i k with lt | ge
    · exact h.written i lt c hc
    · exact h.kept i ge c (by rw [agrees i ge]; exact hc)

/-- The rows that the old table has on such a disk are the old or the new ones exactly if the cut
does no harm. -/
theorem Mixed.readRows_iff (h : Mixed blocks old new k) (le : k ≤ (dataBlocks new).length) :
    (old = readRows blocks old 0 ∨ new = readRows blocks old 0) ↔
      (∀ i < k, ∀ chunk, (dataBlocks old)[i]? = some chunk → ∀ o b, chunk[o]? = some b →
        ((dataBlocks new).getD i []).getD o 0 = b) ∨
      (SameShape old new ∧ ∀ i, k ≤ i → (dataBlocks old)[i]? = (dataBlocks new)[i]?) := by
  refine or_congr ?_ ?_
  · rw [eq_comm, readRows_eq_iff, h.holds_old le]
  · constructor
    · intro same
      have shape : SameShape old new := by
        rw [same]
        exact readRows_shape blocks old 0
      refine ⟨shape, (h.holds_new shape).mp ?_⟩
      rw [← readRows_eq_iff, ← shape.readRows]
      exact same.symm
    · rintro ⟨shape, agrees⟩
      rw [shape.readRows, eq_comm, readRows_eq_iff]
      exact (h.holds_new shape).mpr agrees

/-- The blocks that are cut off are the last ones of the image. -/
theorem imageWrites_take_data (rows : List (Row Entry)) (generation : UInt32) (le : k ≤ (dataBlocks rows).length) :
    (imageWrites rows generation).take k = blockWrites 0 ((dataBlocks rows).take k) := by
  rw [imageWrites, take_append_of_le_length (by rw [blockWrites_length]; exact le), blockWrites_take]

theorem imageWrites_take_head (rows : List (Row Entry)) (generation : UInt32) (lt : (dataBlocks rows).length < k) :
    ∃ j, (imageWrites rows generation).take k =
      blockWrites 0 (dataBlocks rows) ++ (headWrites rows generation).take (j + 1) := by
  refine ⟨k - (dataBlocks rows).length - 1, ?_⟩
  rw [imageWrites, take_append, blockWrites_length, take_of_length_le (by rw [blockWrites_length]; omega)]
  congr 2
  omega

end Cut

variable {d : Drive}

/-- Once the inode table is written, the disk holds the new rows. -/
theorem onDisk_of_table_written {blocks : UInt32 → Block} {rows : List (Row Entry)}
    {generation before : UInt32} {j : Nat} (loadable : Loadable rows) (fit : (dataBlocks rows).length ≤ 1024 - 3)
    (super : blocks 0 = storeBytes zeroBlock 0 (superblockOf before).pack) (image : d.blocks = applyWrites blocks
      (blockWrites 0 (dataBlocks rows) ++ (headWrites rows generation).take (j + 1))) : OnDisk d rows := by
  have data := blockWrites_other fit (m := 0) (by decide)
  have super' := (applyWrites_other blocks _ data).trans super
  have written := image
  rw [applyWrites_append] at image
  have whole : ∀ j, (headWrites rows generation).take (j + 2 + 1) = headWrites rows generation :=
    fun j => take_of_length_le (by simp [headWrites])
  have table : d.blocks inodeTableBlock = tableFrom zeroBlock 0 (inodesFrom rows 0) := by
    rw [image]
    rcases j with _ | _ | j
    · rfl
    · rfl
    · rw [whole]
      rfl
  have superblock : ∃ g, d.blocks 0 = storeBytes zeroBlock 0 (superblockOf g).pack := by
    rw [image]
    rcases j with _ | _ | j
    · exact ⟨before, super'⟩
    · exact ⟨before, super'⟩
    · rw [whole]
      exact ⟨generation, rfl⟩
  obtain ⟨g, hg⟩ := superblock
  refine onDisk_of_image loadable fit ⟨hg, table, fun i c hc => ?_⟩
  rw [written]
  exact applyWrites_image_data blocks fit (fun _ inside => mem_of_mem_take inside) hc

/-- With room for everything, `load` gives the rows of the disk as they are. -/
theorem load_whole (ids : UInt32 × UInt32) {rows : List (Row Entry)} (onDisk : OnDisk d rows)
    (loadable : Loadable rows) {r : Ramfs} (tidy : r.pool.Tidy) {sizes : List Nat}
    (lengths : (contentsOf rows).map length = sizes) (counts : r.pool.Counts sizes) (grants : r.pool.Grants sizes) :
    ∃ r', load ids d r = some (true, r') ∧ ∀ n, r'.tree n = grow (labelAt rows) (kidsAt rows) n 0 := by
  subst lengths
  obtain ⟨r', result, tree⟩ := load_onDisk ids onDisk loadable tidy counts
  have same : withContents rows (contentsOf rows) = rows :=
    ((withContents_eq_iff (by rw [contentsOf, length_map])).mpr rfl).symm
  rw [(Pool.kept_eq_iff ..).mpr grants, same] at tree
  exact ⟨r', result, tree⟩

/-- Load after a save of `t` over a saved `s` was cut after `k` writes, with room in the pool for
both trees. -/
theorem Stored.load_cut {s t r : Ramfs} {content content' : UInt64 → Bytes}
    (hs : Stored ⟨s, content⟩) (ht : Stored ⟨t, content'⟩) (tidy : r.pool.Tidy)
    (ids : UInt32 × UInt32) (saved : (save s d).1 = true) (k : Nat)
    (countsOld : r.pool.Counts (fileSizes s)) (countsNew : r.pool.Counts (fileSizes t))
    (grantsOld : r.pool.Grants (fileSizes s)) (grantsNew : r.pool.Grants (fileSizes t)) :
    ∃ r', load ids (save t ((save s d).2.cutAfter k)).2 r = some (true, r') ∧
      ((SameTree s r' ∨ SameTree t r') ↔ SurvivesCut s t k) := by
  have imageOld := hs.save_image saved
  generalize (save s d).2 = e at imageOld ⊢
  have fitOld := hs.dataBlocks_fit
  have fitNew := ht.dataBlocks_fit
  have before : Imaged e.blocks s.rows (nextGeneration d) := by
    rw [imageOld]
    exact imaged_of_writes d.blocks fitOld
  have cut : (save t (e.cutAfter k)).2.blocks = applyWrites e.blocks
      ((imageWrites t.rows (nextGeneration (e.cutAfter k))).take k) := by
    rw [save_eq ht]
    exact e.cutAfter_writeAll k (ht.imageWrites_valid _)
  generalize (save t (e.cutAfter k)).2 = f at cut ⊢
  rcases lt_or_ge (dataBlocks t.rows).length k with late | early
  · -- The new table is there.
    obtain ⟨j, taken⟩ := imageWrites_take_head t.rows (nextGeneration (e.cutAfter k)) late
    rw [taken] at cut
    have onDisk := onDisk_of_table_written ht.loadable fitNew before.super cut
    obtain ⟨r', result, tree⟩ := load_whole ids onDisk ht.loadable tidy ht.fileSizes_eq countsNew grantsNew
    refine ⟨r', result, fun _ => .inl late, fun _ => .inr ?_⟩
    exact (sameTree_iff_rows ht.linked ht.loadable.order tree).mpr rfl
  · -- The old table is there still.
    rw [imageWrites_take_data t.rows _ early] at cut
    have fitCut : ((dataBlocks t.rows).take k).length ≤ 1024 - 3 := by
      rw [length_take]
      omega
    have low : ∀ {m : UInt32}, m.toNat < 3 → f.blocks m = e.blocks m := by
      intro m lt
      rw [cut, applyWrites_other]
      exact blockWrites_other fitCut lt
    have mixed : Mixed f.blocks s.rows t.rows k := by
      constructor
      · intro i lt c hc
        have there := applyWrites_data e.blocks (by rw [zero_add]; exact fitCut)
          (i := i) (c := c) (by rw [getElem?_take, if_pos lt]; exact hc)
        rw [zero_add] at there
        rw [cut, there]
      · intro i ge c hc
        have lt := (List.getElem?_eq_some_iff.mp hc).1
        rw [cut, applyWrites_noData (by rw [zero_add]; exact fitCut) (by omega)
          (.inr (by rw [length_take]; omega)), before.data i c hc]
    have onDisk := onDisk_of_table (d := f) hs.loadable fitOld
      ((low (by decide)).trans before.super) ((low (by decide)).trans before.table)
    have shape := readRows_shape f.blocks s.rows 0
    have loadable := shape.loadable hs.loadable
    have sizes : (contentsOf (readRows f.blocks s.rows 0)).map length = fileSizes s := by
      rw [← hs.fileSizes_eq]
      have lengths : ∀ rows : List (Row Entry), (contentsOf rows).map length =
          (rows.map shapeOf).map fun x => x.2.1 := by
        intro rows
        rw [contentsOf, map_map, map_map]
        rfl
      rw [lengths, lengths, shape]
    obtain ⟨r', result, tree⟩ := load_whole ids onDisk loadable tidy sizes countsOld grantsOld
    refine ⟨r', result, ?_⟩
    rw [sameTree_iff_rows hs.linked loadable.order tree,
      sameTree_iff_rows ht.linked loadable.order tree, mixed.readRows_iff early]
    exact (or_iff_right (by omega)).symm

/-- Whatever filesystem is on the disk, whatever is saved over it and after however many writes the
save is cut: what is loaded from the disk is the old tree or the new one exactly if the cut does no
harm. The counters do not wrap, and the pool at the load has room for either tree. -/
theorem cut_of_admits (old new now : List FsOp) (admittedOld : Along fsStep Ramfs.FsAdmits boot old)
    (admittedNew : Along fsStep Ramfs.FsAdmits boot new)
    (admittedNow : Along fsStep Ramfs.FsAdmits boot now) (ids : UInt32 × UInt32)
    (d : Drive) (k : Nat) (saved : (save (run fsStep boot old) d).1 = true)
    (countsOld : (run fsStep boot now).pool.Counts (fileSizes (run fsStep boot old)))
    (countsNew : (run fsStep boot now).pool.Counts (fileSizes (run fsStep boot new)))
    (grantsOld : (run fsStep boot now).pool.Grants (fileSizes (run fsStep boot old)))
    (grantsNew : (run fsStep boot now).pool.Grants (fileSizes (run fsStep boot new))) :
    ∃ r, load ids (save (run fsStep boot new) ((save (run fsStep boot old) d).2.cutAfter k)).2
        (run fsStep boot now) = some (true, r) ∧
      ((SameTree (run fsStep boot old) r ∨ SameTree (run fsStep boot new) r) ↔
        SurvivesCut (run fsStep boot old) (run fsStep boot new) k) := by
  obtain ⟨_, storedOld⟩ := sound_of_admits admittedOld
  obtain ⟨_, storedNew⟩ := sound_of_admits admittedNew
  obtain ⟨_, storedNow⟩ := sound_of_admits admittedNow
  exact storedOld.load_cut storedNew storedNow.tidy ids saved k countsOld countsNew grantsOld grantsNew

/-! ## Two cuts -/

/-- One file in the root. -/
def otherTree : List FsOp :=
  [.ramfs (.createFile (0, 0) rootId (.letter 0)), .ramfs (.write 2 [9])]

theorem otherTree_admits : Along fsStep Ramfs.FsAdmits boot otherTree :=
  ⟨fun _ => by decide, fun _ _ => by decide, trivial⟩

theorem otherTree_fits : boot.pool.Counts (fileSizes (run fsStep boot otherTree)) ∧
    boot.pool.Grants (fileSizes (run fsStep boot otherTree)) := by
  have sizes : fileSizes (run fsStep boot otherTree) = [0, 1] := by decide
  exact ⟨⟨fun e => absurd rfl e, fun _ _ => by decide, trivial⟩, rfl, rfl, trivial⟩

theorem smallTree_saved : (save (run fsStep boot smallTree) goodDrive).1 = true := by
  obtain ⟨_, stored⟩ := sound_of_admits smallTree_admits
  exact stored.save_succeeds fun _ => rfl

/-- A cut right after the inode table was written. -/
theorem cut_after_the_table : ∃ r, load (0, 0) (save (run fsStep boot otherTree)
          ((save (run fsStep boot smallTree) goodDrive).2.cutAfter 2)).2 boot = some (true, r) ∧
      (SameTree (run fsStep boot smallTree) r ∨ SameTree (run fsStep boot otherTree) r) := by
  obtain ⟨r, loaded, same⟩ := cut_of_admits smallTree otherTree [] smallTree_admits otherTree_admits
    trivial (0, 0) goodDrive 2 smallTree_saved smallTree_fits.1 otherTree_fits.1 smallTree_fits.2 otherTree_fits.2
  exact ⟨r, loaded, same.mpr (.inl (by decide))⟩

/-- A cut after the one data block: the old directory and file are there, but the file has the new
byte in it. -/
theorem cut_mixes_the_trees : ¬ ∀ (old new : List FsOp) (ids : UInt32 × UInt32) (d : Drive) (k : Nat),
      (save (run fsStep boot old) d).1 = true → ∃ r, load ids (save (run fsStep boot new)
              ((save (run fsStep boot old) d).2.cutAfter k)).2 boot = some (true, r) ∧
          (SameTree (run fsStep boot old) r ∨ SameTree (run fsStep boot new) r) := by
  intro claim
  obtain ⟨r, loaded, same⟩ := claim smallTree otherTree (0, 0) goodDrive 1 smallTree_saved
  obtain ⟨_, storedOld⟩ := sound_of_admits smallTree_admits
  obtain ⟨_, storedNew⟩ := sound_of_admits otherTree_admits
  obtain ⟨r', loaded', survives⟩ := storedOld.load_cut storedNew Stored.boot.tidy (0, 0)
    smallTree_saved 1 smallTree_fits.1 otherTree_fits.1 smallTree_fits.2 otherTree_fits.2
  cases Option.some.inj (loaded.symm.trans loaded')
  have blocksOld : dataBlocks (run fsStep boot smallTree).rows = [[1, 2]] := by decide
  have blocksNew : dataBlocks (run fsStep boot otherTree).rows = [[9]] := by decide
  rcases survives.mp same with late | agrees | ⟨shape, _⟩
  · rw [blocksNew] at late
    exact absurd late (by decide)
  · rw [blocksNew] at agrees
    exact absurd (agrees 0 (by decide) [1, 2] rfl 0 1 rfl) (by decide)
  · exact absurd shape.length (by decide)

end BarryOS.Fs
