import BarryOS.Fs.DiskfsImage

/-!
# Reading the image back

What `load` finds on a disk: the records unpack to what was packed, an unused slot of
the table reads as unused, and the contents of a file are the bytes of its blocks.
`OnDisk` says that a disk holds certain rows, whatever else there is on it.
-/

namespace BarryOS.Fs

open Lib List Nat UInt32 Option

/-! ## Records -/

variable {i : Nat} {b : Block}

theorem u16At_le16 {v : UInt16} (h : loadBytes b i 2 = le16 v) : u16At b i = v := by
  rw [u16At, h, le16, leNat_leBytes 2 _ v.toNat_lt, UInt16.ofNat_toNat]

theorem u32At_le32 {v : UInt32} (h : loadBytes b i 4 = le32 v) : u32At b i = v := by
  rw [u32At, h, le32, leNat_leBytes 4 _ v.toNat_lt, UInt32.ofNat_toNat]

theorem u64At_le64 {v : UInt64} (h : loadBytes b i 8 = le64 v) : u64At b i = v := by
  rw [u64At, h, le64, leNat_leBytes 8 _ v.toNat_lt, UInt64.ofNat_toNat]

theorem byteAt {v : UInt8} (h : loadBytes b i 1 = [v]) : b i = v := by
  simpa [loadBytes] using h

theorem DiskInode.pack_length {d : DiskInode} (name : d.name.length = 32) : d.pack.length = inodeSize := by
  simp [pack, le16, le32, name, inodeSize]

theorem unpackInode_pack {d : DiskInode} (name : d.name.length = 32) (b : Block) (i : Nat) :
    unpackInode (storeBytes b i d.pack) i = d := by
  have length := d.pack_length name
  have part : ∀ k n, k + n ≤ 64 → loadBytes (storeBytes b i d.pack) (i + k) n = (d.pack.drop k).take n := by
    intro k n le
    exact loadBytes_store_part d.pack b i k n (by rw [length]; exact le)
  have names : loadBytes (storeBytes b i d.pack) (i + 32) 32 = d.name := by
    rw [part 32 32 (by decide)]
    exact take_of_length_le (le_of_eq name)
  have first : storeBytes b i d.pack i = d.used := byteAt (part 0 1 (by decide))
  unfold unpackInode
  rw [names, first, byteAt (part 1 1 (by decide)), byteAt (part 2 1 (by decide)), u16At_le16 (part 4 2 (by decide)),
    u32At_le32 (part 8 4 (by decide)), u32At_le32 (part 12 4 (by decide)),
    u32At_le32 (part 16 4 (by decide)), u32At_le32 (part 20 4 (by decide)),
    u32At_le32 (part 24 4 (by decide)), u32At_le32 (part 28 4 (by decide))]

theorem unpackInode_congr {c : Block} (same : ∀ k < inodeSize, b (i + k) = c (i + k)) :
    unpackInode b i = unpackInode c i := by
  have part : ∀ k n, k + n ≤ 64 → loadBytes b (i + k) n = loadBytes c (i + k) n := by
    intro k n le
    apply map_congr_left
    intro j hj
    have hj := mem_range.mp hj
    rw [add_assoc]
    exact same (k + j) (by unfold inodeSize; omega)
  have byte : ∀ k < 64, b (i + k) = c (i + k) := same
  unfold unpackInode u16At u32At
  rw [part 4 2 (by decide), part 8 4 (by decide), part 12 4 (by decide), part 16 4 (by decide),
    part 20 4 (by decide), part 24 4 (by decide), part 28 4 (by decide), part 32 32 (by decide),
    byte 1 (by decide), byte 2 (by decide), show b i = c i from byte 0 (by decide)]

theorem readSuperblock_pack {d : Drive} {sb : Superblock} (h : d.blocks 0 = storeBytes zeroBlock 0 sb.pack)
    (marked : sb.magic = magic) : readSuperblock d = some sb := by
  have part : ∀ k n, k + n ≤ 44 → loadBytes (d.blocks 0) k n = (sb.pack.drop k).take n := by
    intro k n le
    rw [h]
    have := loadBytes_store_part sb.pack zeroBlock 0 k n (by simpa [Superblock.pack, le32, le64] using le)
    rwa [zero_add] at this
  have isMagic : u64At (d.blocks 0) 0 = sb.magic := u64At_le64 (part 0 8 (by decide))
  unfold readSuperblock Drive.readBlock
  rw [if_neg (by decide)]
  dsimp only
  rw [isMagic, if_neg fun other => other marked]
  rw [u32At_le32 (part 8 4 (by decide)), u32At_le32 (part 12 4 (by decide)),
    u32At_le32 (part 16 4 (by decide)), u32At_le32 (part 20 4 (by decide)),
    u32At_le32 (part 24 4 (by decide)), u32At_le32 (part 28 4 (by decide)),
    u32At_le32 (part 32 4 (by decide)), u32At_le32 (part 36 4 (by decide)),
    u32At_le32 (part 40 4 (by decide))]

/-! ## The inode table -/

variable {k : Nat}

section

variable (table : Block) (slot : Nat) {ds : List DiskInode} (names : ∀ d ∈ ds, d.name.length = 32)

include names

theorem tableFrom_before (lt : k < slot * inodeSize) : tableFrom table slot ds k = table k := by
  induction ds generalizing table slot with
  | nil => rfl
  | cons d ds ih =>
    rw [tableFrom, ih _ _ (fun e he => names e (mem_cons_of_mem _ he))
      (by rw [succ_mul]; omega), storeBytes_outside _ _ _ _ (.inl lt)]

theorem tableFrom_after (ge : (slot + ds.length) * inodeSize ≤ k) : tableFrom table slot ds k = table k := by
  induction ds generalizing table slot with
  | nil => rfl
  | cons d ds ih =>
    have length := d.pack_length (names d (by simp))
    rw [length_cons] at ge
    have start : (slot + 1) * inodeSize ≤ k := le_trans (mul_le_mul_right _ (by omega)) ge
    rw [tableFrom, ih _ _ (fun e he => names e (mem_cons_of_mem _ he))
      (by rwa [show slot + 1 + ds.length = slot + (ds.length + 1) by omega]),
      storeBytes_outside _ _ _ _ (.inr (by rw [length, ← succ_mul]; exact start))]

theorem unpackInode_tableFrom {j : Nat} {d : DiskInode} (hd : ds[j]? = some d) :
    unpackInode (tableFrom table slot ds) ((slot + j) * inodeSize) = d := by
  induction ds generalizing table slot j with
  | nil => simp at hd
  | cons e ds ih =>
    have rest : ∀ d ∈ ds, d.name.length = 32 := fun f hf => names f (mem_cons_of_mem _ hf)
    cases j with
    | zero =>
      have : e = d := by simpa using hd
      subst this
      rw [add_zero, tableFrom, ← unpackInode_pack (names e (by simp)) table (slot * inodeSize)]
      apply unpackInode_congr
      intro k lt
      rw [unpackInode_pack (names e (by simp))]
      exact tableFrom_before _ _ rest (by rw [succ_mul]; omega)
    | succ j =>
      rw [tableFrom, show slot + (j + 1) = slot + 1 + j by omega]
      exact ih _ _ rest (by simpa using hd)

end

theorem unpackInode_unused (ds : List DiskInode) (names : ∀ d ∈ ds, d.name.length = 32) {j : Nat}
    (ge : ds.length ≤ j) : (unpackInode (tableFrom zeroBlock 0 ds) (j * inodeSize)).used = 0 := by
  show tableFrom zeroBlock 0 ds (j * inodeSize) = 0
  rw [tableFrom_after zeroBlock 0 names (by rw [zero_add]; exact mul_le_mul_right _ ge)]
  rfl

/-! ## Contents -/

/-- The bytes of the blocks from `first` on. -/
def fileBytes (blocks : UInt32 → Block) (first : UInt32) (size : Nat) : Bytes :=
  (range size).map fun a => blocks (first + UInt32.ofNat (a / blockSize)) (a % blockSize)

variable (blocks : UInt32 → Block)

@[simp] theorem fileBytes_length (first : UInt32) (size : Nat) :
    (fileBytes blocks first size).length = size := by simp [fileBytes]

/-- The read loop puts the blocks' bytes into the buffer. -/
theorem loadBlocks_eq (d : Drive) (first : UInt32) (want n b : Nat) (buf : Block)
    (valid : ∀ j, j * blockSize < want → first + UInt32.ofNat j < blockCount) (count : n + b = 16)
    (most : want ≤ 16 * blockSize) {a : Nat} (lt : a < want) :
    loadBlocks d first want n (min want (b * blockSize)) buf a = if a < b * blockSize then buf a
      else d.blocks (first + UInt32.ofNat (a / blockSize)) (a % blockSize) := by
  induction n generalizing b buf with
  | zero =>
    have : b = 16 := by omega
    rw [this, if_pos (lt_of_lt_of_le lt most)]
    rfl
  | succ n ih =>
    unfold loadBlocks
    split
    next more =>
      have start : min want (b * blockSize) = b * blockSize := by omega
      have here : b * blockSize / blockSize = b := Nat.mul_div_cancel _ (by decide)
      have readable : ¬ first + UInt32.ofNat b ≥ blockCount := by
        have := valid b (by omega)
        rw [lt_iff_toNat_lt] at this
        rw [ge_iff_le, le_iff_toNat_le]
        omega
      have stop : b * blockSize + min blockSize (want - b * blockSize) = min want ((b + 1) * blockSize) := by
        rw [succ_mul]
        omega
      rw [start] at more ⊢
      rw [here, Drive.readBlock, if_neg readable]
      dsimp only
      rw [stop, ih (b + 1) _ (by omega), succ_mul]
      by_cases old : a < b * blockSize
      · rw [if_pos (by omega), if_pos old, storeBytes_outside _ _ _ _ (.inl old)]
      rw [if_neg old]
      by_cases mine : a < b * blockSize + blockSize
      · rw [if_pos mine]
        have quotient : a / blockSize = b := by
          unfold blockSize at *
          omega
        have remainder : a = b * blockSize + a % blockSize := by
          have := div_add_mod a blockSize
          rw [quotient, mul_comm] at this
          omega
        have inside := storeBytes_inside
          (loadBytes (d.blocks (first + UInt32.ofNat b)) 0 (min blockSize (want - b * blockSize)))
          buf (b * blockSize) (a % blockSize) (by rw [loadBytes_length]; omega)
        rw [← remainder, loadBytes_getElem, zero_add] at inside
        rw [inside, quotient]
      · rw [if_neg mine]
    · rw [if_pos (by omega)]

theorem loadContents_eq (d : Drive) (i : DiskInode)
    (valid : ∀ j, j * blockSize < i.size.toNat → i.firstBlock + UInt32.ofNat j < blockCount)
    (small : i.size.toNat ≤ maxFileSize) : loadContents d i = fileBytes d.blocks i.firstBlock i.size.toNat := by
  unfold loadContents
  rw [Nat.min_eq_left small]
  apply map_congr_left
  intro a ha
  have lt := mem_range.mp ha
  have loop := loadBlocks_eq d i.firstBlock i.size.toNat 16 0 zeroBlock valid rfl (Nat.le_trans small (by decide)) lt
  rw [Nat.zero_mul, Nat.min_zero] at loop
  rw [Nat.zero_add]
  exact loop

/-! ## Rows on a disk -/

/-- What can be loaded: rows as a reachable filesystem has them. -/
structure Loadable (rows : List (Row Entry)) : Prop where
  order : LevelOrder rows
  few : rows.length ≤ inodeCount
  root : ∃ r, rows[0]? = some r ∧ r.label.name = Vfs.rootNode.name ∧ r.label.vtype = .dir
  kinds : ∀ r ∈ rows, r.label.vtype ≠ .symlink ∧ (r.label.vtype = .dir → r.label.content = [])
  named : ∀ r ∈ rows, validUtf8 r.label.name = true ∧ r.label.name ≠ [] ∧ r.label.name.length ≤ maxName
  siblings : ∀ i j r q, 0 < i → 0 < j → rows[i]? = some r → rows[j]? = some q →
    parentAt rows i = parentAt rows j → r.label.name = q.label.name → i = j
  kids : ∀ i, (kidsAt rows i).length ≤ maxChildren
  small : ∀ r ∈ rows, r.label.content.length ≤ maxFileSize

/-- An inode on a disk is that of a row. -/
structure Describes (d : Drive) (i : DiskInode) (r : Row Entry) : Prop where
  used : i.used = 1
  vtype : i.vtype = if r.label.vtype = .dir then 1 else 0
  name : i.nameStr.bytes = r.label.name
  perm : (⟨i.uid, i.gid, i.mode⟩ : Perm) = r.label.perm
  parent : i.parent.toNat = r.parent
  size : i.size.toNat = r.label.content.length
  content : r.label.content ≠ [] → loadContents d i = r.label.content

/-- A disk holds rows. -/
structure OnDisk (d : Drive) (rows : List (Row Entry)) : Prop where
  superblock : ∃ generation, readSuperblock d = some (superblockOf generation)
  inodes : ∀ k r, rows[k]? = some r → Describes d (unpackInode (d.blocks inodeTableBlock) (k * inodeSize)) r
  unused : ∀ k, rows.length ≤ k → (unpackInode (d.blocks inodeTableBlock) (k * inodeSize)).used = 0

/-- The rows of an inode table, with the contents that are in their blocks now. -/
def readRows (blocks : UInt32 → Block) : List (Row Entry) → Nat → List (Row Entry)
  | [], _ => []
  | r :: rs, next =>
    ⟨{ r.label with
        content := fileBytes blocks (dataStartBlock + UInt32.ofNat next) r.label.content.length },
      r.parent⟩ :: readRows blocks rs (next + blocksFor r.label.content.length)

theorem readRows_length (rows : List (Row Entry)) (next : Nat) : (readRows blocks rows next).length = rows.length := by
  induction rows generalizing next with
  | nil => rfl
  | cons r rs ih => rw [readRows, length_cons, length_cons, ih]

/-- Where the contents of row `k` start. -/
def startOf : List (Row Entry) → Nat → Nat
  | [], _ => 0
  | _ :: _, 0 => 0
  | r :: rs, k + 1 => blocksFor r.label.content.length + startOf rs k

variable {rows : List (Row Entry)} {r : Row Entry} (next : Nat)

theorem inodesFrom_get
    (hr : rows[k]? = some r) : (inodesFrom rows next)[k]? = some (inodeRow r (next + startOf rows k)) := by
  induction rows generalizing k next with
  | nil => simp at hr
  | cons q rs ih =>
    cases k with
    | zero =>
      have : q = r := by simpa using hr
      simp [inodesFrom, startOf, this]
    | succ k =>
      rw [inodesFrom, getElem?_cons_succ, ih _ (by simpa using hr), startOf, add_assoc]

theorem inodesFrom_length (rows : List (Row Entry)) (next : Nat) : (inodesFrom rows next).length = rows.length := by
  induction rows generalizing next with
  | nil => rfl
  | cons r rs ih => rw [inodesFrom, length_cons, length_cons, ih]

theorem readRows_get {blocks : UInt32 → Block} (hr : rows[k]? = some r) :
    (readRows blocks rows next)[k]? = some ⟨{ r.label with
        content := fileBytes blocks (dataStartBlock + UInt32.ofNat (next + startOf rows k))
          r.label.content.length }, r.parent⟩ := by
  induction rows generalizing k next with
  | nil => simp at hr
  | cons q rs ih =>
    cases k with
    | zero =>
      have : q = r := by simpa using hr
      simp [readRows, startOf, this]
    | succ k =>
      rw [readRows, getElem?_cons_succ, ih _ (by simpa using hr), startOf, add_assoc]

/-- Contents start behind those of the rows before. -/
theorem startOf_add_le (hr : rows[k]? = some r) :
    startOf rows k + blocksFor r.label.content.length ≤ (dataBlocks rows).length := by
  induction rows generalizing k with
  | nil => simp at hr
  | cons q rs ih =>
    have blocks : (dataBlocks (q :: rs)).length = blocksFor q.label.content.length + (dataBlocks rs).length := by
      show (chunks _ ++ dataBlocks rs).length = _
      rw [length_append, chunks_length]
    cases k with
    | zero =>
      have : q = r := by simpa using hr
      rw [blocks, startOf, this]
      omega
    | succ k =>
      have := ih (k := k) (by simpa using hr)
      rw [startOf]
      omega

theorem Loadable.inode_names (loadable : Loadable rows) : ∀ i ∈ inodesFrom rows 0, i.name.length = 32 := by
  have nameLength : ∀ r ∈ rows, (r.label.name ++ replicate (32 - r.label.name.length) 0).length = 32 := by
    intro r hr
    have := (loadable.named r hr).2.2
    unfold maxName at this
    rw [length_append, length_replicate]
    omega
  intro i hi
  obtain ⟨k, lt, rfl⟩ := mem_iff_getElem.mp hi
  rw [inodesFrom_length] at lt
  have get := inodesFrom_get 0 (getElem?_eq_getElem lt)
  obtain ⟨lt', e⟩ := List.getElem?_eq_some_iff.mp get
  rw [e]
  exact nameLength _ (getElem_mem lt)

/-- An inode table and a superblock make a disk hold the table's rows, with the contents their
blocks have now. -/
theorem onDisk_of_table {d : Drive} {generation : UInt32}
    (loadable : Loadable rows) (fit : (dataBlocks rows).length ≤ 1024 - 3)
    (super : d.blocks 0 = storeBytes zeroBlock 0 (superblockOf generation).pack)
    (table : d.blocks inodeTableBlock = tableFrom zeroBlock 0 (inodesFrom rows 0)) :
    OnDisk d (readRows d.blocks rows 0) := by
  have names := loadable.inode_names
  refine ⟨⟨generation, readSuperblock_pack super rfl⟩, ?_, ?_⟩
  · intro k q hq
    have lt : k < rows.length := by
      have := (List.getElem?_eq_some_iff.mp hq).1
      rwa [readRows_length] at this
    have hr := getElem?_eq_getElem lt
    generalize rows[k] = r at hr
    rw [readRows_get 0 hr] at hq
    obtain rfl := Option.some.inj hq
    have member : r ∈ rows := mem_of_getElem? hr
    obtain ⟨utf8, _, short⟩ := loadable.named r member
    have small := loadable.small r member
    have place := startOf_add_le hr
    have inode := unpackInode_tableFrom zeroBlock 0 names (inodesFrom_get 0 hr)
    rw [zero_add] at inode
    rw [table, inode, zero_add]
    have size : (UInt32.ofNat r.label.content.length).toNat = r.label.content.length := by
      unfold maxFileSize at small
      rw [toNat_ofNat', mod_eq_of_lt (by omega)]
    have nameLen : (UInt8.ofNat r.label.name.length).toNat = r.label.name.length := by
      unfold maxName at short
      rw [UInt8.toNat_ofNat', mod_eq_of_lt (by omega)]
    refine ⟨rfl, rfl, ?_, rfl, ?_, ?_, ?_⟩
    · have cut : (r.label.name ++ replicate (32 - r.label.name.length) 0).take
          (min (UInt8.ofNat r.label.name.length).toNat 32) = r.label.name := by
        unfold maxName at short
        rw [nameLen, min_eq_left (by omega), take_left]
      show (Str.ofUtf8Or questionMark ((r.label.name ++ replicate _ 0).take
        (min (UInt8.ofNat r.label.name.length).toNat 32))).bytes = r.label.name
      rw [cut]
      exact congrArg Str.bytes (Str.ofUtf8Or_bytes questionMark ⟨r.label.name, utf8⟩)
    · show (UInt32.ofNat r.parent).toNat = r.parent
      have few := loadable.few
      have parent : parentAt rows k < 64 := by
        rcases Nat.eq_zero_or_pos k with rfl | pos
        · rw [loadable.order.root]
          decide
        have := loadable.order.earlier k pos lt
        unfold inodeCount at few
        omega
      rw [parentAt, hr] at parent
      rw [toNat_ofNat', mod_eq_of_lt (by
        have : r.parent < 64 := parent
        omega)]
    · show (UInt32.ofNat r.label.content.length).toNat = _
      rw [size, fileBytes_length]
    · intro nonempty
      have some' : r.label.content.length ≠ 0 := by
        intro zero
        apply nonempty
        rw [zero]
        rfl
      have first : (inodeRow r (startOf rows k)).firstBlock =
          dataStartBlock + UInt32.ofNat (startOf rows k) := if_neg some'
      have sizeIs : (inodeRow r (startOf rows k)).size.toNat = r.label.content.length := size
      rw [loadContents_eq d _ ?_ (by rw [sizeIs]; exact small), first, sizeIs]
      intro j lt
      have block : j < blocksFor r.label.content.length := by
        unfold blocksFor blockSize at *
        omega
      rw [first, UInt32.add_assoc, ← UInt32.ofNat_add]
      exact (dataBlock_valid (by omega)).1
  · intro k ge
    rw [table]
    exact unpackInode_unused _ names (by rw [inodesFrom_length, ← readRows_length d.blocks rows 0]; exact ge)

/-! ## Shapes -/

/-- All of a row but the bytes of its contents. -/
def shapeOf (r : Row Entry) : (Bytes × VnodeType × Perm) × Nat × Nat :=
  ((r.label.name, r.label.vtype, r.label.perm), r.label.content.length, r.parent)

/-- Trees that differ in the bytes of their files only. -/
def SameShape (rows rows' : List (Row Entry)) : Prop := rows.map shapeOf = rows'.map shapeOf

section Shape

variable {rows rows' : List (Row Entry)}

section

variable (h : SameShape rows rows')

include h

theorem SameShape.symm : SameShape rows' rows := Eq.symm h

theorem SameShape.length : rows.length = rows'.length := by
  simpa using congrArg List.length h

theorem SameShape.get {r' : Row Entry}
    (hr : rows'[k]? = some r') : ∃ r, rows[k]? = some r ∧ shapeOf r = shapeOf r' := by
  have there : (rows.map shapeOf)[k]? = (rows'.map shapeOf)[k]? := congrArg (fun l => l[k]?) h
  rw [getElem?_map, getElem?_map, hr] at there
  exact map_eq_some_iff.mp there

theorem SameShape.parentAt : parentAt rows = parentAt rows' := by
  funext k
  have there : (rows.map shapeOf)[k]? = (rows'.map shapeOf)[k]? := congrArg (fun l => l[k]?) h
  rw [getElem?_map, getElem?_map] at there
  have parents : ∀ o : Option (Row Entry), o.map Row.parent = (o.map shapeOf).map fun t => t.2.2 := by
    intro o
    cases o <;> rfl
  rw [Lib.parentAt, Lib.parentAt, parents, parents, there]

theorem SameShape.kidsAt : kidsAt rows = kidsAt rows' := by
  funext i
  rw [Lib.kidsAt, Lib.kidsAt, kidsBelow, kidsBelow, h.parentAt, h.length]

theorem SameShape.levelOrder (order : LevelOrder rows) : LevelOrder rows' := by
  obtain ⟨nonempty, root, earlier, sorted⟩ := order
  rw [h.parentAt] at root earlier sorted
  rw [h.length] at nonempty earlier sorted
  exact ⟨nonempty, root, earlier, sorted⟩

theorem SameShape.loadable (loadable : Loadable rows) : Loadable rows' := by
  have back : ∀ {r'}, r' ∈ rows' → ∃ r ∈ rows, shapeOf r = shapeOf r' := by
    intro r' hr'
    obtain ⟨k, hk⟩ := mem_iff_getElem?.mp hr'
    obtain ⟨r, hr, same⟩ := h.get hk
    exact ⟨r, mem_of_getElem? hr, same⟩
  refine ⟨h.levelOrder loadable.order, by rw [← h.length]; exact loadable.few, ?_, ?_, ?_, ?_, ?_, ?_⟩
  · obtain ⟨r, hr, name, dir⟩ := loadable.root
    obtain ⟨r', hr', same⟩ := h.symm.get hr
    simp only [shapeOf, Prod.mk.injEq] at same
    exact ⟨r', hr', same.1.1.trans name, same.1.2.1.trans dir⟩
  · intro r' hr'
    obtain ⟨r, hr, same⟩ := back hr'
    simp only [shapeOf, Prod.mk.injEq] at same
    obtain ⟨kind, empty⟩ := loadable.kinds r hr
    rw [← same.1.2.1]
    refine ⟨kind, fun dir => eq_nil_of_length_eq_zero ?_⟩
    rw [← same.2.1, empty dir]
    rfl
  · intro r' hr'
    obtain ⟨r, hr, same⟩ := back hr'
    simp only [shapeOf, Prod.mk.injEq] at same
    rw [← same.1.1]
    exact loadable.named r hr
  · intro i j r' q' hi hj hr' hq' parents names
    obtain ⟨r, hr, same⟩ := h.get hr'
    obtain ⟨q, hq, same'⟩ := h.get hq'
    simp only [shapeOf, Prod.mk.injEq] at same same'
    rw [← h.parentAt] at parents
    exact loadable.siblings i j r q hi hj hr hq parents (same.1.1.trans (names.trans same'.1.1.symm))
  · intro i
    rw [← h.kidsAt]
    exact loadable.kids i
  · intro r' hr'
    obtain ⟨r, hr, same⟩ := back hr'
    simp only [shapeOf, Prod.mk.injEq] at same
    rw [← same.2.1]
    exact loadable.small r hr

end

theorem readRows_shape (rows : List (Row Entry)) (next : Nat) : SameShape rows (readRows blocks rows next) := by
  unfold SameShape
  induction rows generalizing next with
  | nil => rfl
  | cons r rs ih =>
    rw [readRows, map_cons, map_cons, ← ih]
    simp [shapeOf]

/-- Which bytes a table's rows take is a matter of their shape. -/
theorem SameShape.readRows (h : SameShape rows rows') (blocks : UInt32 → Block) (next : Nat) :
    readRows blocks rows next = readRows blocks rows' next := by
  unfold SameShape at h
  induction rows generalizing rows' next with
  | nil =>
    rw [map_nil, eq_comm, map_eq_nil_iff] at h
    rw [h]
  | cons r rs ih =>
    cases rows' with
    | nil => simp at h
    | cons r' rs' =>
      simp only [map_cons, cons.injEq] at h
      obtain ⟨here, rest⟩ := h
      simp only [shapeOf, Prod.mk.injEq] at here
      obtain ⟨⟨name, kind, perm⟩, size, parent⟩ := here
      rw [Fs.readRows, Fs.readRows]
      dsimp only
      rw [name, kind, perm, size, parent, ih rest]

end Shape

/-! ## Blocks that hold a file -/

/-- The data blocks from number `next` on hold these bytes; what is behind them in a block does
not matter. -/
def Holds (blocks : UInt32 → Block) (next : Nat) (cs : List Bytes) : Prop :=
  ∀ i chunk, cs[i]? = some chunk → ∀ o b, chunk[o]? = some b → blocks (dataStartBlock + UInt32.ofNat (next + i)) o = b

theorem Holds.append_iff (a b : List Bytes) :
    Holds blocks next (a ++ b) ↔ Holds blocks next a ∧ Holds blocks (next + a.length) b := by
  constructor
  · intro h
    constructor
    · intro i c hc
      have lt := (List.getElem?_eq_some_iff.mp hc).1
      exact h i c (by rw [getElem?_append_left lt]; exact hc)
    · intro i c hc
      have := h (a.length + i) c (by
        rw [getElem?_append_right (Nat.le_add_right _ _), Nat.add_sub_cancel_left]
        exact hc)
      rwa [← Nat.add_assoc] at this
  · rintro ⟨ha, hb⟩ i c hc
    rcases Nat.lt_or_ge i a.length with lt | ge
    · rw [getElem?_append_left lt] at hc
      exact ha i c hc
    rw [getElem?_append_right ge] at hc
    have := hb _ c hc
    rwa [Nat.add_assoc, Nat.add_sub_cancel' ge] at this

/-- Byte `o` of block `j` of a file is its byte `j * 4096 + o`. -/
theorem chunks_get {file : Bytes} {j : Nat} {chunk : Bytes} (h : (chunks file)[j]? = some chunk) (o : Nat) :
    chunk[o]? = if o < blockSize then file[j * blockSize + o]? else none := by
  obtain ⟨lt, rfl⟩ := List.getElem?_eq_some_iff.mp h
  simp only [chunks, getElem_map, getElem_range]
  rw [getElem?_take, getElem?_drop]

theorem fileBytes_eq_iff (c : Bytes) :
    fileBytes blocks (dataStartBlock + UInt32.ofNat next) c.length = c ↔ Holds blocks next (chunks c) := by
  have number : ∀ j, dataStartBlock + UInt32.ofNat next + UInt32.ofNat j =
      dataStartBlock + UInt32.ofNat (next + j) := by
    intro j
    rw [UInt32.add_assoc, UInt32.ofNat_add]
  constructor
  · intro whole j chunk hj o b hb
    rw [chunks_get hj] at hb
    split at hb
    next lt =>
      have place := (List.getElem?_eq_some_iff.mp hb).1
      have quotient : (j * blockSize + o) / blockSize = j := by
        unfold blockSize at *
        omega
      have remainder : (j * blockSize + o) % blockSize = o := by
        unfold blockSize at *
        omega
      have byte : (fileBytes blocks (dataStartBlock + UInt32.ofNat next) c.length)[j * blockSize + o]? = some b := by
        rw [whole]
        exact hb
      rw [fileBytes, getElem?_map, getElem?_range place, map_some, quotient, remainder, number] at byte
      exact Option.some.inj byte
    · cases hb
  · intro holds
    apply ext_getElem (fileBytes_length ..)
    intro a _ lt
    have block : a / blockSize < (chunks c).length := by
      rw [chunks_length]
      unfold blocksFor blockSize at *
      omega
    have inBlock := mod_lt a (show 0 < blockSize by decide)
    have whole : a / blockSize * blockSize + a % blockSize = a := div_add_mod' a blockSize
    have byte := chunks_get (getElem?_eq_getElem block) (a % blockSize)
    rw [if_pos inBlock, whole, getElem?_eq_getElem lt] at byte
    have here := holds _ _ (getElem?_eq_getElem block) _ _ byte
    simp only [fileBytes, getElem_map, getElem_range, number]
    exact here

/-- The rows are read back as they are exactly if their blocks hold their contents. -/
theorem readRows_eq_iff (rows : List (Row Entry)) (next : Nat) :
    readRows blocks rows next = rows ↔ Holds blocks next (dataBlocks rows) := by
  induction rows generalizing next with
  | nil => exact ⟨fun _ i c h => by simp [dataBlocks] at h, fun _ => rfl⟩
  | cons r rs ih =>
    have blocksOf : dataBlocks (r :: rs) = chunks r.label.content ++ dataBlocks rs := rfl
    rw [blocksOf, Holds.append_iff, chunks_length, ← ih, ← fileBytes_eq_iff, readRows, cons.injEq]
    refine and_congr ?_ Iff.rfl
    obtain ⟨⟨name, vtype, perm, content⟩, parent⟩ := r
    simp

/-! ## The image of a filesystem -/

/-- The rows of a reachable filesystem can be loaded. -/
theorem Stored.loadable {s : Ramfs} {content : UInt64 → Bytes} (h : Stored ⟨s, content⟩) : Loadable s.rows := by
  have linked : s.vfs.Linked := h.linked
  obtain ⟨walk, used⟩ := collectOrder_traversal linked
  have rowAt : ∀ {k : Nat} {r}, s.rows[k]? = some r → ∃ id v, (collectOrder s.vfs)[k]? = some id ∧
      s.vfs.node id = some v ∧ r = s.rowOf (collectOrder s.vfs) id ∧ r.label = s.entryOf id v := by
    intro k r hr
    obtain ⟨id, hid, rfl⟩ := map_eq_some_iff.mp ((getElem?_map ..).symm.trans hr)
    obtain ⟨v, hv⟩ := ne_none_iff_exists'.mp (used id (mem_of_getElem? hid))
    exact ⟨id, v, hid, hv, rfl, entryAt_eq hv⟩
  have rowMem : ∀ {r}, r ∈ s.rows → ∃ id v, s.vfs.node id = some v ∧
      r = s.rowOf (collectOrder s.vfs) id ∧ r.label = s.entryOf id v := by
    intro r hr
    obtain ⟨k, hk⟩ := mem_iff_getElem?.mp hr
    obtain ⟨id, v, _, hv, row, label⟩ := rowAt hk
    exact ⟨id, v, hv, row, label⟩
  refine ⟨rows_levelOrder linked, ?_, ?_, ?_, ?_, ?_, ?_, ?_⟩
  · rw [Ramfs.rows, numbered_length]
    exact linked.rooted.few _ walk.nodup used
  · obtain ⟨r, hr, dir, _, name⟩ := linked.root
    refine ⟨s.rowOf (collectOrder s.vfs) rootId, ?_, ?_, ?_⟩
    · show ((collectOrder s.vfs).map (s.rowOf (collectOrder s.vfs)))[0]? = _
      rfl
    · show (s.entryAt rootId).name = _
      rw [entryAt_eq hr]
      exact name
    · show (s.entryAt rootId).vtype = _
      rw [entryAt_eq hr]
      exact dir
  · intro r hr
    obtain ⟨id, v, hv, _, label⟩ := rowMem hr
    rw [label]
    refine ⟨linked.kinds hv, fun dir => ?_⟩
    have dir : v.vtype = .dir := dir
    rw [h.entry_content hv, dir]
    rfl
  · intro r hr
    obtain ⟨id, v, hv, _, label⟩ := rowMem hr
    rw [label]
    exact linked.named hv
  · intro i j r q hi hj hr hq parents names
    obtain ⟨x, v, hx, hv, _, labelX⟩ := rowAt hr
    obtain ⟨y, w, hy, hw, _, labelY⟩ := rowAt hq
    rw [labelX, labelY] at names
    rw [Ramfs.rows, walk.parentAt_numbered _ hi hx, walk.parentAt_numbered _ hj hy] at parents
    -- Both are listed by the same directory.
    have listed : ∀ {k : Nat} {z}, 0 < k → (collectOrder s.vfs)[k]? = some z →
        ∃ p ∈ collectOrder s.vfs, z ∈ listedIds s.vfs p ∧ s.vfs.getParent z = p := by
      intro k z pos hz
      have member := mem_of_getElem? hz
      rw [walk.closed] at member
      have := (mem_cons.mp member).resolve_left (walk.not_root pos hz)
      obtain ⟨p, hp, kid⟩ := mem_flatMap.mp this
      exact ⟨p, hp, kid, walk.parents p hp z kid⟩
    obtain ⟨p, hp, kidX, parentX⟩ := listed hi hx
    obtain ⟨p', hp', kidY, parentY⟩ := listed hj hy
    rw [parentX, parentY] at parents
    have same : p = p' := (idxOf_inj hp).mp parents
    subst same
    obtain ⟨d, hd⟩ := ne_none_iff_exists'.mp (used p hp)
    rw [linked.listedIds hd] at kidX kidY
    have ids := linked.siblings hd x kidX y kidY hv hw names
    subst ids
    obtain ⟨hi', ei⟩ := List.getElem?_eq_some_iff.mp hx
    obtain ⟨hj', ej⟩ := List.getElem?_eq_some_iff.mp hy
    exact (walk.nodup.getElem_inj_iff).mp (ei.trans ej.symm)
  · intro i
    rcases lt_or_ge i (collectOrder s.vfs).length with lt | ge
    · have get := getElem?_eq_getElem lt
      obtain ⟨v, hv⟩ := ne_none_iff_exists'.mp (used _ (getElem_mem lt))
      have kids := congrArg length (walk.kidsAt_numbered s.entryAt get)
      rw [length_map, linked.listedIds hv] at kids
      rw [Ramfs.rows, kids]
      exact linked.few hv
    · rw [(rows_levelOrder linked).kidsAt_eq_nil (by rwa [Ramfs.rows, numbered_length])]
      exact zero_le _
  · intro r hr
    obtain ⟨id, v, hv, row, _⟩ := rowMem hr
    rw [row]
    exact (h.blocks_le _ (by simp [hv])).1

end BarryOS.Fs
