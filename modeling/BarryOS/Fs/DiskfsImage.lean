import BarryOS.Fs.FileTree

/-!
# The image `save` writes

For a filesystem in which every vnode holds its data, `save` is a fixed list of block
writes that only depends on the rows of the tree: the contents of the files, block after
block from block 3 on, then the inode table, the bitmap and the superblock. It stops at
the first write that fails, and never for any other reason.
-/

namespace BarryOS.Fs

open Lib List Nat

/-! ## Block writes -/

namespace Drive

/-- Write blocks one after the other, up to the first write that fails. -/
def writeAll (d : Drive) : List (UInt32 × Block) → Bool × Drive
  | [] => (true, d)
  | w :: ws =>
    let r := d.writeBlock w.1 w.2
    if r.1 then r.2.writeAll ws else (false, r.2)

variable (d : Drive)

@[simp] theorem writeAll_nil : d.writeAll [] = (true, d) := rfl

theorem writeAll_append (ws vs : List (UInt32 × Block)) : d.writeAll (ws ++ vs) =
      if (d.writeAll ws).1 then (d.writeAll ws).2.writeAll vs else (false, (d.writeAll ws).2) := by
  induction ws generalizing d with
  | nil => rfl
  | cons w ws ih =>
    simp only [cons_append, writeAll]
    split
    · exact ih _
    · rfl

theorem writeAll_singleton (w : UInt32 × Block) : d.writeAll [w] = d.writeBlock w.1 w.2 := by
  simp only [writeAll]
  split
  next ok => exact Prod.ext ok.symm rfl
  next failed => exact Prod.ext (by simpa using failed) rfl

theorem writeBlock_other {n m : UInt32} (b : Block) (other : m ≠ n) : (d.writeBlock n b).2.blocks m = d.blocks m := by
  unfold writeBlock
  split
  · rfl
  split
  · exact Function.update_of_ne other _ _
  · rfl

theorem writeAll_other (ws : List (UInt32 × Block)) {m : UInt32}
    (others : ∀ w ∈ ws, m ≠ w.1) : (d.writeAll ws).2.blocks m = d.blocks m := by
  induction ws generalizing d with
  | nil => rfl
  | cons w ws ih =>
    have here := d.writeBlock_other w.2 (others w (by simp))
    simp only [writeAll]
    split
    · rw [ih _ fun v hv => others v (mem_cons_of_mem _ hv)]
      exact here
    · exact here

end Drive

/-- The blocks after some writes. -/
def applyWrites (blocks : UInt32 → Block) (ws : List (UInt32 × Block)) : UInt32 → Block :=
  ws.foldl (fun b w => Function.update b w.1 w.2) blocks

variable (blocks : UInt32 → Block)

@[simp] theorem applyWrites_nil : applyWrites blocks [] = blocks := rfl

@[simp] theorem applyWrites_cons (w : UInt32 × Block) (ws : List (UInt32 × Block)) :
    applyWrites blocks (w :: ws) = applyWrites (Function.update blocks w.1 w.2) ws := rfl

theorem applyWrites_append (ws vs : List (UInt32 × Block)) :
    applyWrites blocks (ws ++ vs) = applyWrites (applyWrites blocks ws) vs :=
  foldl_append ..

theorem applyWrites_other (ws : List (UInt32 × Block)) {m : UInt32}
    (others : ∀ w ∈ ws, m ≠ w.1) : applyWrites blocks ws m = blocks m := by
  induction ws generalizing blocks with
  | nil => rfl
  | cons w ws ih =>
    rw [applyWrites_cons, ih _ fun v hv => others v (mem_cons_of_mem _ hv), Function.update_of_ne (others w (by simp))]

theorem Drive.writeAll_ok {d : Drive} {ws : List (UInt32 × Block)} (ok : (d.writeAll ws).1 = true) :
    (d.writeAll ws).2.blocks = applyWrites d.blocks ws := by
  induction ws generalizing d with
  | nil => rfl
  | cons w ws ih =>
    simp only [writeAll] at ok ⊢
    split at ok
    next first =>
      rw [if_pos first, ih ok, applyWrites_cons]
      unfold writeBlock at first ⊢
      split at first
      · cases first
      rename_i valid
      rw [if_neg valid]
      split at first
      next goes => rw [if_pos goes]
      · cases first
    · cases ok

/-- The power fails after `k` writes. -/
def Drive.cutAfter (d : Drive) (k : Nat) : Drive := { d with ok := fun n => n < d.written + k }

theorem Drive.cutAfter_writeAll (d : Drive) (k : Nat) {ws : List (UInt32 × Block)}
    (valid : ∀ w ∈ ws, w.1 < blockCount) :
    ((d.cutAfter k).writeAll ws).2.blocks = applyWrites d.blocks (ws.take k) := by
  have general : ∀ (d : Drive) (m k : Nat), d.ok = (fun n => decide (n < m + k)) → d.written = m →
      (d.writeAll ws).2.blocks = applyWrites d.blocks (ws.take k) := by
    induction ws with
    | nil =>
      intro d m k _ _
      simp
    | cons w ws ih =>
      intro d m k ok written
      have here : ¬ w.1 ≥ blockCount := by
        have := valid w (by simp)
        rw [UInt32.lt_iff_toNat_lt] at this
        rw [ge_iff_le, UInt32.le_iff_toNat_le]
        omega
      cases k with
      | zero =>
        simp [writeAll, writeBlock, ok, written]
      | succ k =>
        simp only [writeAll, writeBlock, here, ok, written, ↓reduceIte, show m < m + (k + 1) by omega, decide_true]
        refine ih (fun v hv => valid v (mem_cons_of_mem _ hv)) _ (m + 1) k ?_ rfl
        funext n
        simp only [add_assoc, add_comm 1 k]
  exact general _ d.written k rfl rfl

/-! ## The image of a tree -/

/-- The blocks a file of this many bytes takes. -/
def blocksFor (size : Nat) : Nat := (size + blockSize - 1) / blockSize

/-- The contents of a file, cut into blocks; the last one may be short. -/
def chunks (c : Bytes) : List Bytes :=
  (range (blocksFor c.length)).map fun j => (c.drop (j * blockSize)).take blockSize

@[simp] theorem chunks_length (c : Bytes) : (chunks c).length = blocksFor c.length := by
  simp [chunks]

/-- All files' blocks, in the order they are written. -/
def dataBlocks (rows : List (Row Entry)) : List Bytes :=
  rows.flatMap fun r => chunks r.label.content

/-- Consecutive data blocks from number `next` on. -/
def blockWrites : Nat → List Bytes → List (UInt32 × Block)
  | _, [] => []
  | next, c :: cs =>
    (dataStartBlock + UInt32.ofNat next, storeBytes zeroBlock 0 c) :: blockWrites (next + 1) cs

/-- The inode of a row whose contents start at data block `next`. -/
def inodeRow (r : Row Entry) (next : Nat) : DiskInode where
  used := 1
  vtype := if r.label.vtype = .dir then 1 else 0
  nameLen := UInt8.ofNat r.label.name.length
  mode := r.label.perm.mode
  uid := r.label.perm.uid
  gid := r.label.perm.gid
  size := UInt32.ofNat r.label.content.length
  parent := UInt32.ofNat r.parent
  firstBlock := if r.label.content.length = 0 then 0 else dataStartBlock + UInt32.ofNat next
  blockCount := UInt32.ofNat (blocksFor r.label.content.length)
  name := r.label.name ++ replicate (32 - r.label.name.length) 0

def inodesFrom : List (Row Entry) → Nat → List DiskInode
  | [], _ => []
  | r :: rs, next => inodeRow r next :: inodesFrom rs (next + blocksFor r.label.content.length)

/-- Inodes go into consecutive slots of the table. -/
def tableFrom (table : Block) : Nat → List DiskInode → Block
  | _, [] => table
  | slot, d :: ds => tableFrom (storeBytes table (slot * inodeSize) d.pack) (slot + 1) ds

def bitmapFrom (bitmap : Block) : List (Row Entry) → Nat → Block
  | [], _ => bitmap
  | r :: rs, next =>
    bitmapFrom (markBits bitmap next (blocksFor r.label.content.length)) rs
      (next + blocksFor r.label.content.length)

/-- The three blocks that come after the data. -/
def headWrites (rows : List (Row Entry)) (generation : UInt32) : List (UInt32 × Block) :=
  [(inodeTableBlock, tableFrom zeroBlock 0 (inodesFrom rows 0)), (dataBitmapBlock, bitmapFrom zeroBlock rows 0),
    (0, storeBytes zeroBlock 0 (superblockOf generation).pack)]

def imageWrites (rows : List (Row Entry)) (generation : UInt32) : List (UInt32 × Block) :=
  blockWrites 0 (dataBlocks rows) ++ headWrites rows generation

theorem blockWrites_append (next : Nat) (a b : List Bytes) :
    blockWrites next (a ++ b) = blockWrites next a ++ blockWrites (next + a.length) b := by
  induction a generalizing next with
  | nil => rfl
  | cons c cs ih =>
    rw [cons_append, blockWrites, ih, add_assoc, add_comm 1]
    rfl

theorem blockWrites_length (next : Nat) (cs : List Bytes) : (blockWrites next cs).length = cs.length := by
  induction cs generalizing next with
  | nil => rfl
  | cons c cs ih => rw [blockWrites, length_cons, length_cons, ih]

theorem mem_blockWrites {next : Nat} {cs : List Bytes} {w : UInt32 × Block} (h : w ∈ blockWrites next cs) :
    ∃ i < cs.length, w.1 = dataStartBlock + UInt32.ofNat (next + i) := by
  induction cs generalizing next with
  | nil => cases h
  | cons c cs ih =>
    rcases mem_cons.mp h with rfl | h
    · exact ⟨0, by simp, rfl⟩
    obtain ⟨i, lt, e⟩ := ih h
    exact ⟨i + 1, by simpa using lt, by rw [e]; congr 2; omega⟩

theorem mem_headWrites {rows : List (Row Entry)} {generation : UInt32} {w : UInt32 × Block}
    (h : w ∈ headWrites rows generation) : w.1 = inodeTableBlock ∨ w.1 = dataBitmapBlock ∨ w.1 = 0 := by
  simp only [headWrites, mem_cons, not_mem_nil, or_false] at h
  rcases h with rfl | rfl | rfl
  · exact .inl rfl
  · exact .inr (.inl rfl)
  · exact .inr (.inr rfl)

/-! ## Reading a file back in pieces -/

variable {id : UInt64} {v : Vnode}

section Save

variable {s : Ramfs} {content : UInt64 → Bytes}

section

variable (h : Stored ⟨s, content⟩) {id : UInt64} {v : Vnode} (hv : s.vfs.node id = some v)

include h hv

theorem Stored.size_eq : v.size.toNat = (content id).length := by
  have bytes : loadBytes s.pool.bytes v.dataOffset.toNat v.size.toNat = content id := h.bytes hv
  rw [← bytes, loadBytes_length]

theorem Stored.entry_content : (s.entryOf id v).content = if v.vtype = .file then content id else [] := by
  unfold Ramfs.entryOf
  split
  · rw [h.readFile hv]
    apply take_of_length_le
    rw [← h.size_eq hv]
    exact h.small hv
  · rfl

theorem Stored.readFileAt {off : Nat} (inside : off < (content id).length) (room : Nat) :
    s.readFileAt id (UInt64.ofNat off) room = ((content id).drop off).take room := by
  have sizeEq := h.size_eq hv
  have sized := h.sized hv
  have cap : v.dataCap ≠ 0 := by
    intro e
    rw [e] at sized
    simp at sized
    omega
  have place := (h.held hv cap).inPool
  have start := place.start
  have stop := place.stop
  simp only [Vnode.extent, dataPoolSize] at start stop
  have offNat : (UInt64.ofNat off).toNat = off := by
    rw [UInt64.toNat_ofNat', mod_eq_of_lt (by omega)]
  have notEnd : ¬ (v.dataOffset = 0 ∨ UInt64.ofNat off ≥ v.size) := by
    rintro (e | ge)
    · rw [e] at start
      simp at start
    · rw [ge_iff_le, UInt64.le_iff_toNat_le] at ge
      omega
  have left : (v.size - UInt64.ofNat off).toNat = v.size.toNat - off := by
    rw [UInt64.toNat_sub_of_le _ _ (UInt64.le_iff_toNat_le.mpr (by omega)), offNat]
  have at' : (v.dataOffset + UInt64.ofNat off).toNat = v.dataOffset.toNat + off := by
    rw [UInt64.toNat_add, offNat, mod_eq_of_lt (by omega)]
  have bytes : loadBytes s.pool.bytes v.dataOffset.toNat v.size.toNat = content id := h.bytes hv
  unfold Ramfs.readFileAt
  rw [Vfs.getSize_eq hv, Vfs.getDataOffset_eq hv]
  rw [if_neg notEnd, left, at', ← bytes, loadBytes_drop, loadBytes_take, min_comm]

end

theorem mul_lt_of_lt_blocksFor {n j : Nat} (h : j < blocksFor n) : j * blockSize < n := by
  unfold blocksFor blockSize at *
  omega

/-- The block loop writes the file's blocks, from the `b`-th on. -/
theorem saveBlocks_eq (h : Stored ⟨s, content⟩) (hv : s.vfs.node id = some v) (next n b off : Nat) (d : Drive)
    (count : n + b = blocksFor (content id).length) (place : n ≠ 0 → off = b * blockSize) :
    saveBlocks s id (content id).length (dataStartBlock + UInt32.ofNat next) n b off d =
      d.writeAll (blockWrites (next + b) ((chunks (content id)).drop b)) := by
  induction n generalizing b off d with
  | zero =>
    have : (chunks (content id)).drop b = [] := by
      apply drop_eq_nil_of_le
      rw [chunks_length]
      omega
    rw [this]
    rfl
  | succ n ih =>
    obtain rfl := place (succ_ne_zero n)
    have here : b < blocksFor (content id).length := by omega
    have inside := mul_lt_of_lt_blocksFor here
    have chunk : ((content id).drop (b * blockSize)).take (min blockSize
        ((content id).length - b * blockSize)) = ((content id).drop (b * blockSize)).take blockSize := by
      rw [← length_drop, ← take_eq_take_min]
    have length : (((content id).drop (b * blockSize)).take blockSize).length =
        min blockSize ((content id).length - b * blockSize) := by
      rw [length_take, length_drop]
    have first : (chunks (content id)).drop b =
        ((content id).drop (b * blockSize)).take blockSize :: (chunks (content id)).drop (b + 1) := by
      rw [drop_eq_getElem_cons (by rw [chunks_length]; exact here)]
      simp [chunks]
    have number : dataStartBlock + UInt32.ofNat next + UInt32.ofNat b = dataStartBlock + UInt32.ofNat (next + b) := by
      rw [UInt32.add_assoc, UInt32.ofNat_add]
    have rest := fun d => ih (b + 1) (b * blockSize + min blockSize
      ((content id).length - b * blockSize)) d (by omega) (by
        intro more
        have := mul_lt_of_lt_blocksFor (j := b + 1) (n := (content id).length) (by omega)
        rw [min_eq_left (by rw [succ_mul] at this; omega), succ_mul])
    unfold saveBlocks
    dsimp only
    rw [h.readFileAt hv inside, chunk, if_neg (by rw [length]; exact fun e => e rfl), number, first,
      blockWrites, Drive.writeAll]
    generalize d.writeBlock _ _ = r
    cases r.1 with
    | false => rfl
    | true =>
      simp only [Bool.not_true, Bool.false_eq_true, ↓reduceIte]
      rw [rest, add_assoc]

/-! ## Saving one vnode -/

/-- The row of a vnode in the order `l`. -/
def Ramfs.rowOf (s : Ramfs) (l : List UInt64) (id : UInt64) : Row Entry :=
  ⟨s.entryAt id, if id = rootId then 0 else l.idxOf (s.vfs.getParent id)⟩

theorem entryAt_eq (hv : s.vfs.node id = some v) : s.entryAt id = s.entryOf id v := by
  simp [Ramfs.entryAt, Ramfs.entry, hv]

/-- What one vnode adds to the image: its blocks, its inode and its bits. -/
def SaveState.add (st : SaveState) (id : UInt64) (r : Row Entry) (drive : Drive) : SaveState where
  drive := drive
  table := storeBytes st.table (st.saved.length * inodeSize) (inodeRow r st.nextData).pack
  bitmap := markBits st.bitmap st.nextData (blocksFor r.label.content.length)
  nextData := st.nextData + blocksFor r.label.content.length
  saved := st.saved ++ [some id]

variable {before l : List UInt64}

/-- The place of the parent among the vnodes saved so far. -/
theorem savedIndex (part : before <+: l) (known : id ∈ before) :
    ((before.map some).findIdx? (· = some id)).getD 0 = l.idxOf id := by
  obtain ⟨after, rfl⟩ := part
  have same : (fun x => decide (x = some id)) ∘ some = fun x => x == id := by
    funext x
    by_cases here : x = id <;> simp [here]
  rw [findIdx?_map, same, findIdx?_eq_some_of_exists ⟨id, known, by simp⟩, idxOf_append_of_mem known]
  rfl

/-- The inode `save` makes of a vnode, but for its contents. -/
theorem inodeOf_eq (hv : s.vfs.node id = some v) (part : before <+: l) (orphan : id = rootId → v.parentId = 0)
    (parent : id ≠ rootId → v.parentId ≠ 0 ∧ v.parentId ∈ before) (next : Nat) :
    inodeOf s (before.map some) id v.vtype =
      { inodeRow (s.rowOf l id) next with size := 0, firstBlock := 0, blockCount := 0 } := by
  have perm : s.vfs.getPerm id = some ⟨v.uid, v.gid, v.mode⟩ := by simp [Vfs.getPerm, hv]
  have index : (if v.parentId = 0 then 0 else
      UInt32.ofNat (((before.map some).findIdx? (· = some v.parentId)).getD 0)) =
      UInt32.ofNat (s.rowOf l id).parent := by
    unfold Ramfs.rowOf
    by_cases isRoot : id = rootId
    · simp [isRoot, orphan isRoot]
    obtain ⟨nonzero, known⟩ := parent isRoot
    rw [if_neg nonzero, savedIndex part known]
    simp [isRoot, Vfs.getParent_eq hv]
  unfold inodeOf inodeRow
  rw [perm, Vfs.getName_eq hv, Vfs.getParent_eq hv]
  dsimp only
  rw [index]
  simp [Ramfs.rowOf, entryAt_eq hv, Ramfs.entryOf]

theorem SaveState.add_empty (st : SaveState) (id : UInt64) {r : Row Entry} (empty : r.label.content = []) :
    st.add id r st.drive = putInode st id
      { inodeRow r st.nextData with size := 0, firstBlock := 0, blockCount := 0 } := by
  simp [add, putInode, empty, blocksFor, inodeRow, markBits, blockSize]

/-- The loop body of `save` writes the vnode's blocks and then adds it to the tables. -/
theorem saveNode_eq (h : Stored ⟨s, content⟩)
    (hv : s.vfs.node id = some v) (part : before <+: l) (orphan : id = rootId → v.parentId = 0)
    (parent : id ≠ rootId → v.parentId ≠ 0 ∧ v.parentId ∈ before) {st : SaveState} (saved : st.saved = before.map some)
    (room : st.nextData + blocksFor (s.rowOf l id).label.content.length ≤ 1024 - 3) : saveNode s st id =
      let r := st.drive.writeAll (blockWrites st.nextData (chunks (s.rowOf l id).label.content))
      if r.1 then (true, st.add id (s.rowOf l id) r.2) else (false, { st with drive := r.2 }) := by
  have kind : s.vfs.getType id = some v.vtype := by simp [Vfs.getType, hv]
  have size : (s.vfs.getSize id).toNat = (content id).length := by
    rw [← h.size_eq hv, Vfs.getSize_eq hv]
  have whole : (s.rowOf l id).label.content = if v.vtype = .file then content id else [] := by
    show (s.entryAt id).content = _
    rw [entryAt_eq hv, h.entry_content hv]
  have inode := inodeOf_eq hv part orphan parent st.nextData
  rw [← saved] at inode
  have vtypeIs : (inodeRow (s.rowOf l id) st.nextData).vtype = if v.vtype = .dir then 1 else 0 := by
    show (if (s.entryAt id).vtype = .dir then (1 : UInt8) else 0) = _
    rw [entryAt_eq hv]
    rfl
  unfold saveNode
  simp only [kind]
  rw [inode, size]
  by_cases empty : (s.rowOf l id).label.content = []
  · rw [empty]
    simp only [chunks, length_nil, blocksFor, blockSize, zero_add, Nat.reduceSub,
      Nat.reduceDiv, range_zero, map_nil, blockWrites, Drive.writeAll_nil, ↓reduceIte]
    rw [st.add_empty id empty]
    split
    · rfl
    rename_i file
    have noBytes : (content id).length = 0 := by
      rw [vtypeIs] at file
      have notDir : v.vtype = .file := by
        cases e : v.vtype with
        | file => rfl
        | dir =>
          rw [e] at file
          exact absurd (by decide) file
        | symlink => exact absurd e (h.linked.kinds hv)
      rw [whole, if_pos notDir] at empty
      rw [empty]
      rfl
    rw [if_pos noBytes]
  · have isFile : v.vtype = .file := by
      by_contra other
      rw [whole, if_neg other] at empty
      exact empty rfl
    rw [whole, if_pos isFile] at empty room
    have someBytes : (content id).length ≠ 0 := by
      intro e
      exact empty (eq_nil_of_length_eq_zero e)
    have fileInode : ¬ (inodeRow (s.rowOf l id) st.nextData).vtype ≠ 0 := by
      rw [vtypeIs, isFile]
      decide
    rw [if_neg fileInode, if_neg someBytes]
    have blocks : ((content id).length + blockSize - 1) / blockSize = blocksFor (content id).length := rfl
    rw [blocks, if_neg (by omega)]
    have loop := saveBlocks_eq h hv st.nextData (blocksFor (content id).length) 0 0 st.drive rfl
      (fun _ => by rw [zero_mul])
    rw [drop_zero] at loop
    rw [loop, whole, if_pos isFile]
    generalize st.drive.writeAll _ = r
    cases r.1 with
    | false => rfl
    | true =>
      simp only [Bool.not_true, Bool.false_eq_true, ↓reduceIte, putInode, SaveState.add, whole,
        isFile, inodeRow, someBytes]

/-! ## Saving the tree -/

/-- Every vnode of the order is there, and its parent comes before it. -/
def ParentsSaved (s : Ramfs) (l : List UInt64) : Prop :=
  ∀ before id after, l = before ++ id :: after → ∃ v, s.vfs.node id = some v ∧
    (id = rootId → v.parentId = 0) ∧ (id ≠ rootId → v.parentId ≠ 0 ∧ v.parentId ∈ before)

theorem parentsSaved (h : s.vfs.Linked) : ParentsSaved s (collectOrder s.vfs) := by
  intro before id after split
  obtain ⟨walk, used⟩ := collectOrder_traversal h
  obtain ⟨v, hv⟩ := Option.ne_none_iff_exists'.mp (used id (by rw [split]; simp))
  refine ⟨v, hv, ?_, ?_⟩
  · rintro rfl
    obtain ⟨r, hr, _, orphan, _⟩ := h.root
    cases hr.symm.trans hv
    exact orphan
  · intro other
    have here : (collectOrder s.vfs)[before.length]? = some id := by
      rw [split, getElem?_append_right le_rfl, Nat.sub_self]
      rfl
    have pos : 0 < before.length := by
      rcases Nat.eq_zero_or_pos before.length with zero | pos
      · rw [zero] at here
        exact absurd (Option.some.inj here).symm other
      · exact pos
    obtain ⟨i, lt, parent⟩ := walk.first before.length pos id here
    rw [Vfs.getParent_eq hv] at parent
    have member := mem_of_getElem? parent
    obtain ⟨w, hw⟩ := Option.ne_none_iff_exists'.mp (used _ member)
    refine ⟨(Vfs.node_id hw).2, ?_⟩
    rw [split, getElem?_append_left lt] at parent
    exact mem_of_getElem? parent

theorem saveNodes_eq (h : Stored ⟨s, content⟩) (parents : ParentsSaved s l)
    (before rest : List UInt64) (split : l = before ++ rest) (st : SaveState) (saved : st.saved = before.map some)
    (room : st.nextData + (dataBlocks (rest.map (s.rowOf l))).length ≤ 1024 - 3) :
    let r := st.drive.writeAll (blockWrites st.nextData (dataBlocks (rest.map (s.rowOf l))))
    (saveNodes s rest st).1 = r.1 ∧ (saveNodes s rest st).2.drive = r.2 ∧ (r.1 = true → (saveNodes s rest st).2.table =
            tableFrom st.table before.length (inodesFrom (rest.map (s.rowOf l)) st.nextData) ∧
          (saveNodes s rest st).2.bitmap = bitmapFrom st.bitmap (rest.map (s.rowOf l)) st.nextData) := by
  induction rest generalizing before st with
  | nil => exact ⟨rfl, rfl, fun _ => ⟨rfl, rfl⟩⟩
  | cons id rest ih =>
    obtain ⟨v, hv, orphan, parent⟩ := parents before id rest split
    have blocks : dataBlocks ((id :: rest).map (s.rowOf l)) =
        chunks (s.rowOf l id).label.content ++ dataBlocks (rest.map (s.rowOf l)) := rfl
    rw [blocks, length_append, chunks_length] at room
    have node := saveNode_eq (l := l) h hv ⟨id :: rest, split.symm⟩ orphan parent saved (by omega)
    rw [blocks, blockWrites_append, Drive.writeAll_append, chunks_length]
    unfold saveNodes
    rw [node]
    generalize st.drive.writeAll (blockWrites st.nextData (chunks (s.rowOf l id).label.content)) = r
    obtain ⟨ok, drive⟩ := r
    cases ok with
    | false => exact ⟨rfl, rfl, fun e => by cases e⟩
    | true =>
      have slot : st.saved.length = before.length := by rw [saved, length_map]
      have next := ih (before ++ [id]) (by rw [split]; simp) (st.add id (s.rowOf l id) drive)
        (by simp [SaveState.add, saved]) (by show _ + _ + _ ≤ _; omega)
      have table : (st.add id (s.rowOf l id) drive).table = storeBytes st.table
          (before.length * inodeSize) (inodeRow (s.rowOf l id) st.nextData).pack := by
        rw [← slot]
        rfl
      rw [table, length_append, length_singleton] at next
      exact next

/-- The number of the save. -/
def nextGeneration (d : Drive) : UInt32 := ((readSuperblock d).map Superblock.generation).getD 0 + 1

theorem dataBlock_valid {i : Nat} (lt : i < 1024 - 3) :
    dataStartBlock + UInt32.ofNat i < blockCount ∧ 3 ≤ (dataStartBlock + UInt32.ofNat i).toNat := by
  have value : (dataStartBlock + UInt32.ofNat i).toNat = 3 + i := by
    rw [UInt32.toNat_add, UInt32.toNat_ofNat']
    have : dataStartBlock.toNat = 3 := rfl
    omega
  rw [UInt32.lt_iff_toNat_lt]
  have : blockCount.toNat = 1024 := rfl
  omega

/-- Data blocks leave the first three blocks alone. -/
theorem blockWrites_other {cs : List Bytes} (few : cs.length ≤ 1024 - 3) {m : UInt32}
    (low : m.toNat < 3) : ∀ w ∈ blockWrites 0 cs, m ≠ w.1 := by
  rintro w hw rfl
  obtain ⟨i, lt, e⟩ := mem_blockWrites hw
  rw [zero_add] at e
  have := (dataBlock_valid (i := i) (by omega)).2
  rw [← e] at this
  omega

theorem readSuperblock_congr {d e : Drive} (same : d.blocks 0 = e.blocks 0) : readSuperblock d = readSuperblock e := by
  unfold readSuperblock Drive.readBlock
  rw [same]

theorem Stored.blocks_le (h : Stored ⟨s, content⟩) (l : List UInt64) (used : s.vfs.node id ≠ none) :
    (s.rowOf l id).label.content.length ≤ maxFileSize ∧ blocksFor (s.rowOf l id).label.content.length ≤ 16 := by
  obtain ⟨v, hv⟩ := Option.ne_none_iff_exists'.mp used
  have small := h.small hv
  rw [h.size_eq hv] at small
  have le : (s.rowOf l id).label.content.length ≤ maxFileSize := by
    show (s.entryAt id).content.length ≤ _
    rw [entryAt_eq hv, h.entry_content hv]
    split
    · exact small
    · exact zero_le _
  refine ⟨le, ?_⟩
  unfold blocksFor blockSize
  unfold maxFileSize at le
  omega

/-- The disk has room for every tree: the root has no contents, and 63 files of 16 blocks fit. -/
theorem Stored.dataBlocks_fit (h : Stored ⟨s, content⟩) : (dataBlocks s.rows).length ≤ 1024 - 3 := by
  obtain ⟨walk, used⟩ := collectOrder_traversal h.linked
  have few := h.linked.rooted.few _ walk.nodup used
  have rows : s.rows = (collectOrder s.vfs).map (s.rowOf (collectOrder s.vfs)) := rfl
  have each : ∀ l : List UInt64, (∀ id ∈ l, s.vfs.node id ≠ none) →
      (dataBlocks (l.map (s.rowOf (collectOrder s.vfs)))).length ≤ 16 * l.length := by
    intro l all
    induction l with
    | nil => exact zero_le _
    | cons id l ih =>
      have here := (h.blocks_le (collectOrder s.vfs) (all id (by simp))).2
      have rest := ih fun j hj => all j (mem_cons_of_mem _ hj)
      show (chunks _ ++ dataBlocks _).length ≤ _
      rw [length_append, chunks_length, length_cons]
      omega
  have root : (s.rowOf (collectOrder s.vfs) rootId).label.content = [] := by
    obtain ⟨r, hr, dir, _⟩ := h.linked.root
    show (s.entryAt rootId).content = []
    rw [entryAt_eq hr, h.entry_content hr, dir]
    rfl
  obtain ⟨tail, split⟩ : ∃ tail, collectOrder s.vfs = rootId :: tail := ⟨_, walk.closed⟩
  have tailBlocks := each tail fun id hid => used id (by rw [split]; exact mem_cons_of_mem _ hid)
  rw [split, length_cons] at few
  have whole : dataBlocks s.rows = chunks [] ++ dataBlocks (tail.map (s.rowOf (collectOrder s.vfs))) := by
    rw [rows]
    conv_lhs => rw [split]
    rw [map_cons, ← split, ← root]
    rfl
  rw [whole, length_append, chunks_length]
  unfold maxVnodes at few
  simp only [length_nil, blocksFor, blockSize]
  omega

theorem saveTables_eq (d : Drive) (table bitmap : Block) : saveTables d table bitmap = d.writeAll
      [(inodeTableBlock, table), (dataBitmapBlock, bitmap),
        (0, storeBytes zeroBlock 0 (superblockOf (nextGeneration d)).pack)] := by
  have first := d.writeBlock_other (n := inodeTableBlock) (m := 0) table (by decide)
  have second := (d.writeBlock inodeTableBlock table).2.writeBlock_other
    (n := dataBitmapBlock) (m := 0) bitmap (by decide)
  unfold saveTables
  simp only [Drive.writeAll]
  generalize d.writeBlock inodeTableBlock table = a at first second ⊢
  obtain ⟨okA, a⟩ := a
  cases okA with
  | false => rfl
  | true =>
    generalize a.writeBlock dataBitmapBlock bitmap = b at second ⊢
    obtain ⟨okB, b⟩ := b
    cases okB with
    | false => rfl
    | true =>
      have same := readSuperblock_congr (second.trans first)
      simp only [Bool.not_true, Bool.false_eq_true, ↓reduceIte, writeSuperblock, same, nextGeneration]
      exact (b.writeAll_singleton (0, _)).symm

theorem save_eq (h : Stored ⟨s, content⟩) (d : Drive) :
    save s d = d.writeAll (imageWrites s.rows (nextGeneration d)) := by
  have fit := h.dataBlocks_fit
  obtain ⟨ok, drive, tables⟩ := saveNodes_eq h (parentsSaved h.linked) [] (collectOrder s.vfs) rfl
    { drive := d } rfl (by rw [zero_add]; exact fit)
  have rows : (collectOrder s.vfs).map (s.rowOf (collectOrder s.vfs)) = s.rows := rfl
  rw [rows] at ok drive tables
  have keep := d.writeAll_other _ (blockWrites_other fit (m := 0) (by decide))
  unfold save imageWrites
  rw [Drive.writeAll_append]
  generalize saveNodes s (collectOrder s.vfs) { drive := d } = r at ok drive tables ⊢
  generalize d.writeAll (blockWrites 0 (dataBlocks s.rows)) = q at ok drive tables keep ⊢
  obtain ⟨okR, st⟩ := r
  obtain ⟨okQ, e⟩ := q
  subst ok drive
  cases okR with
  | false => rfl
  | true =>
    have generation : nextGeneration st.drive = nextGeneration d := by
      rw [nextGeneration, readSuperblock_congr keep, nextGeneration]
    have table : st.table = tableFrom zeroBlock 0 (inodesFrom s.rows 0) := (tables rfl).1
    have bitmap : st.bitmap = bitmapFrom zeroBlock s.rows 0 := (tables rfl).2
    simp only [↓reduceIte]
    rw [saveTables_eq, generation, table, bitmap]
    rfl

end Save

end BarryOS.Fs
