import BarryOS.Fs.Ramfs
import BarryOS.Lib.LevelOrder

/-!
# barryFS, the filesystem on disk (fs/diskfs.rs)

A superblock, one block of 64 inodes, a data bitmap and a run of 4 KiB data blocks.
`save` writes the whole RAM filesystem out, breadth first; `load` builds it again.

A `Drive` is what `ata::read_sectors` and `ata::write_sectors` make of a disk that is
present: a read returns what was last written, and `ok n` tells whether the n-th write
of the run goes through. A write that does not leaves the block as it was.
-/

namespace BarryOS.Fs

open Lib

def blockSize : Nat := 4096
def blockCount : UInt32 := 1024
def magic : UInt64 := 0x31465952524142
def inodeSize : Nat := 64
def inodeCount : Nat := 64
def inodeTableBlock : UInt32 := 1
def dataBitmapBlock : UInt32 := 2
def dataStartBlock : UInt32 := 3

/-- The bytes of one block. -/
abbrev Block := Nat → UInt8

def zeroBlock : Block := fun _ => 0

structure Drive where
  blocks : UInt32 → Block
  ok : Nat → Bool
  written : Nat := 0

namespace Drive

def readBlock (d : Drive) (n : UInt32) : Option Block :=
  if n ≥ blockCount then none else some (d.blocks n)

def writeBlock (d : Drive) (n : UInt32) (b : Block) : Bool × Drive :=
  if n ≥ blockCount then (false, d)
  else if d.ok d.written then
    (true, { d with blocks := Function.update d.blocks n b, written := d.written + 1 })
  else (false, d)

end Drive

/-! ## Records -/

structure Superblock where
  magic : UInt64
  version : UInt32
  blockSize : UInt32
  inodeCount : UInt32
  inodeTableBlock : UInt32
  dataBitmapBlock : UInt32
  dataStartBlock : UInt32
  totalBlocks : UInt32
  rootInode : UInt32
  generation : UInt32
  deriving DecidableEq, Repr

/-- `vtype` is 0 for a file and 1 for a directory; `name` is the array of 32. -/
structure DiskInode where
  used : UInt8 := 0
  vtype : UInt8 := 0
  nameLen : UInt8 := 0
  mode : UInt16 := 0
  uid : UInt32 := 0
  gid : UInt32 := 0
  size : UInt32 := 0
  parent : UInt32 := 0
  firstBlock : UInt32 := 0
  blockCount : UInt32 := 0
  name : Bytes := List.replicate 32 0
  deriving DecidableEq, Repr

def le16 (v : UInt16) : Bytes := leBytes 2 v.toNat
def le32 (v : UInt32) : Bytes := leBytes 4 v.toNat
def le64 (v : UInt64) : Bytes := leBytes 8 v.toNat

def u16At (b : Block) (i : Nat) : UInt16 := UInt16.ofNat (leNat (loadBytes b i 2))
def u32At (b : Block) (i : Nat) : UInt32 := UInt32.ofNat (leNat (loadBytes b i 4))
def u64At (b : Block) (i : Nat) : UInt64 := UInt64.ofNat (leNat (loadBytes b i 8))

def Superblock.pack (sb : Superblock) : Bytes :=
  le64 sb.magic ++ le32 sb.version ++ le32 sb.blockSize ++ le32 sb.inodeCount ++
    le32 sb.inodeTableBlock ++ le32 sb.dataBitmapBlock ++ le32 sb.dataStartBlock ++
    le32 sb.totalBlocks ++ le32 sb.rootInode ++ le32 sb.generation

def readSuperblock (d : Drive) : Option Superblock :=
  match d.readBlock 0 with
  | none => none
  | some b =>
    if u64At b 0 ≠ magic then none
    else some ⟨u64At b 0, u32At b 8, u32At b 12, u32At b 16, u32At b 20, u32At b 24, u32At b 28,
      u32At b 32, u32At b 36, u32At b 40⟩

def writeSuperblock (d : Drive) (sb : Superblock) : Bool × Drive :=
  d.writeBlock 0 (storeBytes zeroBlock 0 sb.pack)

/-- `pack_inode`: the 64 bytes of a record. -/
def DiskInode.pack (d : DiskInode) : Bytes :=
  [d.used, d.vtype, d.nameLen, 0] ++ le16 d.mode ++ [0, 0] ++ le32 d.uid ++ le32 d.gid ++
    le32 d.size ++ le32 d.parent ++ le32 d.firstBlock ++ le32 d.blockCount ++ d.name

/-- `unpack_inode` of the record that starts at `i`. -/
def unpackInode (b : Block) (i : Nat) : DiskInode where
  used := b i
  vtype := b (i + 1)
  nameLen := b (i + 2)
  mode := u16At b (i + 4)
  uid := u32At b (i + 8)
  gid := u32At b (i + 12)
  size := u32At b (i + 16)
  parent := u32At b (i + 20)
  firstBlock := u32At b (i + 24)
  blockCount := u32At b (i + 28)
  name := loadBytes b (i + 32) 32

/-- `unwrap_or("?")`. -/
def questionMark : Str := ⟨[0x3F], by decide⟩

def DiskInode.nameStr (d : DiskInode) : Str :=
  Str.ofUtf8Or questionMark (d.name.take (min d.nameLen.toNat 32))

/-! ## Saving -/

/-- The ids of a directory's children. -/
def listedIds (t : Vfs) (id : UInt64) : List UInt64 := (t.readDir id maxChildren).map DirEntry.id

/-- Walk the VFS breadth-first so that a parent is always written before its children. -/
def collectOrder (t : Vfs) : List UInt64 := levelLoop (listedIds t) maxVnodes maxVnodes [rootId] 1

/-- What `save` carries from one inode to the next. `saved` is `vnode_of_slot`, with `none`
where `index_of` is still `u32::MAX`. -/
structure SaveState where
  drive : Drive
  table : Block := zeroBlock
  bitmap : Block := zeroBlock
  nextData : Nat := 0
  saved : List (Option UInt64) := []

/-- The block loop of a file's contents: `n` blocks to go, the next one `b`, at `off`. -/
def saveBlocks (s : Ramfs) (id : UInt64) (size : Nat) (first : UInt32) :
    Nat → Nat → Nat → Drive → Bool × Drive
  | 0, _, _, d => (true, d)
  | n + 1, b, off, d =>
    let chunk := min blockSize (size - off)
    let bytes := s.readFileAt id (UInt64.ofNat off) chunk
    if bytes.length ≠ chunk then (false, d)
    else
      let (ok, d) := d.writeBlock (first + UInt32.ofNat b) (storeBytes zeroBlock 0 bytes)
      if !ok then (false, d) else saveBlocks s id size first n (b + 1) (off + chunk) d

/-- Mark the data blocks used in the bitmap. -/
def markBits (bitmap : Block) (next : Nat) : Nat → Block
  | 0 => bitmap
  | n + 1 =>
    let bit := next + n
    let marked := markBits bitmap next n
    Function.update marked (bit / 8) (marked (bit / 8) ||| (1 <<< UInt8.ofNat (bit % 8)))

/-- The inode of a vnode but for its contents. -/
def inodeOf (s : Ramfs) (saved : List (Option UInt64)) (id : UInt64) (vtype : VnodeType) :
    DiskInode :=
  let p := (s.vfs.getPerm id).getD ⟨0, 0, 0⟩
  let name := s.vfs.getName id
  let parentId := s.vfs.getParent id
  { used := 1
    vtype := if vtype = .dir then 1 else 0
    mode := p.mode
    uid := p.uid
    gid := p.gid
    name := name ++ List.replicate (32 - name.length) 0
    nameLen := UInt8.ofNat name.length
    parent := if parentId = 0 then 0
      else UInt32.ofNat ((saved.findIdx? (· = some parentId)).getD 0) }

/-- The end of the loop body of `save`: the record goes into its slot of the table. -/
def putInode (st : SaveState) (id : UInt64) (d : DiskInode) : SaveState :=
  { st with
    table := storeBytes st.table (st.saved.length * inodeSize) d.pack
    saved := st.saved ++ [some id] }

/-- The loop body of `save`. -/
def saveNode (s : Ramfs) (st : SaveState) (id : UInt64) : Bool × SaveState :=
  match s.vfs.getType id with
  | none => (true, { st with saved := st.saved ++ [none] })
  | some vtype =>
    let d := inodeOf s st.saved id vtype
    let size := (s.vfs.getSize id).toNat
    if d.vtype ≠ 0 then (true, putInode st id d)
    else if size = 0 then (true, putInode st id d)
    else
      let blocks := (size + blockSize - 1) / blockSize
      if st.nextData + blocks > 1024 - 3 then (false, st)
      else
        let first := dataStartBlock + UInt32.ofNat st.nextData
        let (ok, drive) := saveBlocks s id size first blocks 0 0 st.drive
        if !ok then (false, { st with drive := drive })
        else
          (true, putInode { st with
              drive := drive
              bitmap := markBits st.bitmap st.nextData blocks
              nextData := st.nextData + blocks }
            id
            { d with
              size := UInt32.ofNat size
              firstBlock := first
              blockCount := UInt32.ofNat blocks })

def saveNodes (s : Ramfs) : List UInt64 → SaveState → Bool × SaveState
  | [], st => (true, st)
  | id :: rest, st =>
    let (ok, st) := saveNode s st id
    if ok then saveNodes s rest st else (false, st)

/-- The superblock of a saved filesystem. -/
def superblockOf (generation : UInt32) : Superblock :=
  ⟨magic, 1, UInt32.ofNat blockSize, UInt32.ofNat inodeCount, inodeTableBlock, dataBitmapBlock,
    dataStartBlock, blockCount, 0, generation⟩

/-- The end of `save`: inode table, then the bitmap, then the superblock. -/
def saveTables (d : Drive) (table bitmap : Block) : Bool × Drive :=
  let (ok, d) := d.writeBlock inodeTableBlock table
  if !ok then (false, d)
  else
    let (ok, d) := d.writeBlock dataBitmapBlock bitmap
    if !ok then (false, d)
    else
      let generation := ((readSuperblock d).map Superblock.generation).getD 0
      writeSuperblock d (superblockOf (generation + 1))

/-- Write the in-memory filesystem to disk. -/
def save (s : Ramfs) (drive : Drive) : Bool × Drive :=
  let (ok, st) := saveNodes s (collectOrder s.vfs) { drive := drive }
  if !ok then (false, st.drive) else saveTables st.drive st.table st.bitmap

/-- The root as `format` writes it. -/
def formatRoot : DiskInode where
  used := 1
  vtype := 1
  nameLen := 1
  mode := modeDir
  uid := uidRoot
  gid := gidRoot
  name := 0x2F :: List.replicate 31 0

/-! ## Loading -/

/-- The read loop of a file's contents; a block that cannot be read ends it. -/
def loadBlocks (d : Drive) (first : UInt32) (want : Nat) : Nat → Nat → Block → Block
  | 0, _, buf => buf
  | n + 1, off, buf =>
    if off < want then
      match d.readBlock (first + UInt32.ofNat (off / blockSize)) with
      | none => buf
      | some block =>
        let chunk := min blockSize (want - off)
        loadBlocks d first want n (off + chunk) (storeBytes buf off (loadBytes block 0 chunk))
    else buf

/-- The contents `load` reads for an inode; sixteen blocks make the largest file. -/
def loadContents (d : Drive) (i : DiskInode) : Bytes :=
  let want := min i.size.toNat maxFileSize
  loadBytes (loadBlocks d i.firstBlock want 16 0 zeroBlock) 0 want

/-- What `load` carries from one inode to the next. -/
structure LoadState where
  fs : Ramfs
  idOfIndex : Nat → UInt64 := fun _ => 0

/-- The vnode of an inode that passed the checks. -/
def loadNode (ids : UInt32 × UInt32) (d : Drive) (st : LoadState) (i : Nat) (inode : DiskInode)
    (parent : UInt64) : LoadState :=
  let (id, fs) := if inode.vtype = 1 then Ramfs.createDirIn ids st.fs parent inode.nameStr
    else Ramfs.createFileIn ids st.fs parent inode.nameStr
  if id = 0 then { st with fs := fs }
  else
    let fs := if inode.vtype = 0 ∧ inode.size > 0 then (fs.writeFile id (loadContents d inode)).2
      else fs
    let vfs := (fs.vfs.setOwner id inode.uid inode.gid).setMode id inode.mode
    ⟨{ fs with vfs := vfs }, Function.update st.idOfIndex i id⟩

/-- The loop body of `load`. -/
def loadInode (ids : UInt32 × UInt32) (d : Drive) (rootInode : UInt32) (st : LoadState) (i : Nat)
    (inode : DiskInode) : LoadState :=
  if inode.used = 0 then st
  else if UInt32.ofNat i = rootInode then
    let vfs := (st.fs.vfs.setOwner rootId inode.uid inode.gid).setMode rootId inode.mode
    ⟨{ st.fs with vfs := vfs }, Function.update st.idOfIndex i rootId⟩
  else if inode.parent.toNat ≥ inodeCount then st
  else
    let parent := st.idOfIndex inode.parent.toNat
    if parent = 0 then st
    else if inode.nameStr.bytes.isEmpty then st
    else loadNode ids d st i inode parent

/-- `count` inodes from index `i` on; an index past the table is a panic. -/
def loadInodes (ids : UInt32 × UInt32) (d : Drive) (rootInode : UInt32) (table : Block) :
    Nat → Nat → LoadState → Option LoadState
  | 0, _, st => some st
  | count + 1, i, st =>
    if i < inodeCount then
      loadInodes ids d rootInode table count (i + 1)
        (loadInode ids d rootInode st i (unpackInode table (i * inodeSize)))
    else none

/-- Replace the in-memory filesystem with the one on disk. The data pool stays as it is.
`none` is a panic. -/
def load (ids : UInt32 × UInt32) (d : Drive) (s : Ramfs) : Option (Bool × Ramfs) :=
  match readSuperblock d with
  | none => some (false, s)
  | some sb =>
    if sb.blockSize.toNat ≠ blockSize ∨ sb.version ≠ 1 then some (false, s)
    else
      match d.readBlock sb.inodeTableBlock with
      | none => some (false, s)
      | some table =>
        (loadInodes ids d sb.rootInode table sb.inodeCount.toNat 0
          { fs := { s with vfs := Vfs.reset } }).map fun st => (true, st.fs)

end BarryOS.Fs
