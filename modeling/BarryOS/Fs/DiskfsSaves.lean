import BarryOS.Fs.DiskfsRoundTrip
import BarryOS.Lib.Bitmap

/-!
# A save fits the disk

63 files of 16 blocks are less than the data area has, so `save` runs out of blocks only where the
walk from the root meets 64 files: the root would have to be one itself. It never is while ids are
given out once. After 2^64 calls the counter comes back to the id of the root, and a run that goes on
from there takes the root away (`wrapped_ids_overflow_the_disk`).
-/

namespace BarryOS.Fs

open Lib Ramfs List Nat

/-! ## Runs of data blocks -/

/-- Inode `i` of the table on a disk. -/
def Drive.inode (d : Drive) (i : Nat) : DiskInode := unpackInode (d.blocks inodeTableBlock) (i * inodeSize)

/-- A block of an inode's run. -/
def DiskInode.InRun (i : DiskInode) (n : Nat) : Prop :=
  i.used ≠ 0 ∧ i.firstBlock.toNat ≤ n ∧ n < i.firstBlock.toNat + i.blockCount.toNat

/-- The runs of a disk lie apart in the data area, and the bitmap has a bit for each of their blocks. -/
structure Drive.Laid (d : Drive) : Prop where
  apart : ∀ {i j n : Nat}, i < inodeCount → j < inodeCount → (d.inode i).InRun n → (d.inode j).InRun n → i = j
  inside : ∀ {i n : Nat}, i < inodeCount → (d.inode i).InRun n → 3 ≤ n ∧ n < 1024
  marked : ∀ k < 1024 - 3, Bitmap.testBit (d.blocks dataBitmapBlock) k = true ↔
    ∃ i < inodeCount, (d.inode i).InRun (3 + k)

/-- With a disk that takes every write, a save goes through, in the 64 slots of the inode block, and
leaves a disk that is laid out. -/
def Ramfs.Saves (s : Ramfs) : Prop :=
  ∀ d : Drive, (∀ n, d.ok n = true) → (save s d).1 = true ∧ (collectOrder s.vfs).length ≤ inodeCount ∧ (save s d).2.Laid

section Rows

variable {rows : List (Row Entry)}

theorem markBits_eq (b : Block) (next n : Nat) : markBits b next n = Bitmap.setRange b next n := by
  induction n with
  | zero => rfl
  | succ n ih =>
    rw [markBits, ih]
    rfl

theorem dataBlocks_cons (r : Row Entry) (rs : List (Row Entry)) :
    (dataBlocks (r :: rs)).length = blocksFor r.label.content.length + (dataBlocks rs).length := by
  rw [dataBlocks, flatMap_cons, length_append, chunks_length]
  rfl

theorem testBit_bitmapFrom (b : Block) (next k : Nat) : Bitmap.testBit (bitmapFrom b rows next) k =
      (Bitmap.testBit b k || decide (next ≤ k ∧ k < next + (dataBlocks rows).length)) := by
  induction rows generalizing b next with
  | nil => simp [bitmapFrom, dataBlocks]
  | cons r rs ih =>
    have joined : (next ≤ k ∧ k < next + (blocksFor r.label.content.length + (dataBlocks rs).length)) ↔
        (next ≤ k ∧ k < next + blocksFor r.label.content.length) ∨ next + blocksFor r.label.content.length ≤ k ∧
            k < next + blocksFor r.label.content.length + (dataBlocks rs).length := by
      omega
    rw [bitmapFrom, ih, markBits_eq, Bitmap.testBit_setRange, dataBlocks_cons, decide_eq_decide.mpr joined,
      Bool.decide_or, Bool.or_assoc]

/-- A row's blocks come before those of a later row. -/
theorem startOf_le {i j : Nat} {r q : Row Entry} (hr : rows[i]? = some r) (hq : rows[j]? = some q) (lt : i < j) :
    startOf rows i + blocksFor r.label.content.length ≤ startOf rows j := by
  induction rows generalizing i j with
  | nil => simp at hr
  | cons p rs ih =>
    obtain ⟨j, rfl⟩ : ∃ k, j = k + 1 := ⟨j - 1, by omega⟩
    cases i with
    | zero =>
      obtain rfl : p = r := by simpa using hr
      simp [startOf]
    | succ i =>
      have := ih (by simpa using hr) (by simpa using hq) (lt_of_succ_lt_succ lt)
      simp only [startOf]
      omega

theorem startOf_cover {k : Nat} (lt : k < (dataBlocks rows).length) :
    ∃ i r, rows[i]? = some r ∧ startOf rows i ≤ k ∧ k < startOf rows i + blocksFor r.label.content.length := by
  induction rows generalizing k with
  | nil => simp [dataBlocks] at lt
  | cons p rs ih =>
    rw [dataBlocks_cons] at lt
    by_cases first : k < blocksFor p.label.content.length
    · exact ⟨0, p, rfl, by simp [startOf], by simpa [startOf] using first⟩
    obtain ⟨i, r, hr, le, here⟩ := ih (k := k - blocksFor p.label.content.length) (by omega)
    exact ⟨i + 1, r, by simpa using hr, by simp only [startOf]; omega, by simp only [startOf]; omega⟩

theorem inRun_row {r : Row Entry} {start n : Nat} (fit : start + blocksFor r.label.content.length ≤ 1024 - 3) :
    (inodeRow r start).InRun n ↔ 3 + start ≤ n ∧ n < 3 + start + blocksFor r.label.content.length := by
  have count : (UInt32.ofNat (blocksFor r.label.content.length)).toNat = blocksFor r.label.content.length := by
    rw [UInt32.toNat_ofNat', mod_eq_of_lt (by omega)]
  have first : (dataStartBlock + UInt32.ofNat start).toNat = 3 + start := by
    rw [UInt32.toNat_add, UInt32.toNat_ofNat', show dataStartBlock.toNat = 3 from rfl]
    omega
  have used : (1 : UInt8) ≠ 0 := by decide
  simp only [DiskInode.InRun, inodeRow, count]
  rw [and_iff_right used]
  split
  next empty =>
    have none : blocksFor r.label.content.length = 0 := by
      rw [empty]
      decide
    omega
  · rw [first]

end Rows

/-- The inodes of an image, and the runs they have. -/
theorem Drive.Laid.of_image {d : Drive} {rows : List (Row Entry)} (loadable : Loadable rows)
    (fit : (dataBlocks rows).length ≤ 1024 - 3)
    (table : d.blocks inodeTableBlock = tableFrom zeroBlock 0 (inodesFrom rows 0))
    (bitmap : d.blocks dataBitmapBlock = bitmapFrom zeroBlock rows 0) : d.Laid := by
  have names := loadable.inode_names
  have run : ∀ i n : Nat, (d.inode i).InRun n ↔ ∃ r, rows[i]? = some r ∧ 3 + startOf rows i ≤ n ∧
      n < 3 + startOf rows i + blocksFor r.label.content.length := by
    intro i n
    cases hr : rows[i]? with
    | none =>
      have beyond : (inodesFrom rows 0).length ≤ i := by
        rw [inodesFrom_length]
        exact List.getElem?_eq_none_iff.mp hr
      have unused := unpackInode_unused (inodesFrom rows 0) names beyond
      rw [← table] at unused
      simp [DiskInode.InRun, Drive.inode, unused]
    | some r =>
      have inode := unpackInode_tableFrom zeroBlock 0 names (inodesFrom_get 0 hr)
      rw [zero_add, ← table] at inode
      have place := startOf_add_le hr
      rw [Drive.inode, inode, inRun_row (by omega)]
      simp
  refine ⟨?_, ?_, ?_⟩
  · intro i j n _ _ here there
    obtain ⟨r, hr, first, last⟩ := (run i n).mp here
    obtain ⟨q, hq, first', last'⟩ := (run j n).mp there
    rcases lt_trichotomy i j with before | same | behind
    · have := startOf_le hr hq before
      omega
    · exact same
    · have := startOf_le hq hr behind
      omega
  · intro i n _ here
    obtain ⟨r, hr, first, last⟩ := (run i n).mp here
    have place := startOf_add_le hr
    omega
  · intro k _
    have clear : Bitmap.testBit zeroBlock k = false := by simp [Bitmap.testBit, zeroBlock]
    rw [bitmap, testBit_bitmapFrom, clear, Bool.false_or, decide_eq_true_eq]
    constructor
    · rintro ⟨_, lt⟩
      rw [zero_add] at lt
      obtain ⟨i, r, hr, first, last⟩ := startOf_cover lt
      have few := (List.getElem?_eq_some_iff.mp hr).1
      exact ⟨i, lt_of_lt_of_le few loadable.few, (run i _).mpr ⟨r, hr, by omega, by omega⟩⟩
    · rintro ⟨i, _, here⟩
      obtain ⟨r, hr, first, last⟩ := (run i _).mp here
      have place := startOf_add_le hr
      omega

variable {s : Ramfs}

theorem Stored.saves {content : UInt64 → Bytes} (h : Stored ⟨s, content⟩) : s.Saves := by
  intro d ok
  have saved := h.save_succeeds ok
  have image := h.save_image saved
  have loadable := h.loadable
  refine ⟨saved, ?_, .of_image loadable h.dataBlocks_fit ?_ ?_⟩
  · have few := loadable.few
    simpa [rows] using few
  · rw [image, imageWrites, applyWrites_append]
    rfl
  · rw [image, imageWrites, applyWrites_append]
    rfl

/-- Every state that calls make from boot, short of a wrap of a counter, can be saved. -/
theorem saves_of_admits (ops : List FsOp) (admitted : Along fsStep Ramfs.FsAdmits boot ops) :
    Throughout fsStep Ramfs.Saves boot ops :=
  (admitted.throughout Ramfs.Sound (fun _ _ h ok => h.fsStep ok) ⟨_, Stored.boot⟩).mono fun _ sound =>
    sound.elim fun _ stored => stored.saves

theorem smallTree_saves : Throughout fsStep Ramfs.Saves boot smallTree :=
  saves_of_admits smallTree smallTree_admits

/-! ## Ids that come back -/

/-- A file is made in the root and removed again: all that stays is the id it took. -/
def spin : List FsOp := [.ramfs (.createFile (0, 0) rootId (.letter 2)), .ramfs (.unlink rootId (.letter 2))]

section Spin

variable {x y : Vnode} {rest : List Vnode} (slots : (Vfs.rootNode :: x :: y :: {} :: rest).length = maxVnodes)
  (pool : Pool)

theorem run_spin (hx : x.id = 2) (hy : y.id = 3) (n : UInt64) (large : 3 < n.toNat) :
    run fsStep ⟨⟨Vfs.rootNode :: x :: y :: {} :: rest, slots, n⟩, pool⟩ spin =
      ⟨⟨Vfs.rootNode :: x :: y :: {} :: rest, slots, n + 1⟩, pool⟩ := by
  have n0 : n ≠ 0 := by rintro rfl; exact absurd large (by decide)
  have n1 : 1 ≠ n := by rintro rfl; exact absurd large (by decide)
  have n2 : 2 ≠ n := by rintro rfl; exact absurd large (by decide)
  have n3 : 3 ≠ n := by rintro rfl; exact absurd large (by decide)
  have create : fsStep ⟨⟨Vfs.rootNode :: x :: y :: {} :: rest, slots, n⟩, pool⟩
      (.ramfs (.createFile (0, 0) rootId (.letter 2))) =
      ⟨⟨{ Vfs.rootNode with childIds := [n] } :: x :: y :: Vfs.newNode (0, 0) n rootId (.letter 2) .file :: rest,
        slots, n + 1⟩, pool⟩ := by
    simp [fsStep, step, createFileIn, Vfs.createFile, Vfs.createNode, Vfs.mayCreate, Vfs.lookup,
      Vfs.node, Vfs.findSlot, slotOf, hx, hy, rootId, Vfs.rootNode, Vfs.vnodeAt, Vfs.allocSlot, Vfs.setSlot,
      Vfs.linkChild, Vfs.modify, Vfs.childCount, maxChildren, List.findIdx?_cons, maxName, Str.letter]
  have remove : fsStep ⟨⟨{ Vfs.rootNode with childIds := [n] } :: x :: y ::
      Vfs.newNode (0, 0) n rootId (.letter 2) .file :: rest, slots, n + 1⟩, pool⟩
      (.ramfs (.unlink rootId (.letter 2))) = ⟨⟨Vfs.rootNode :: x :: y :: {} :: rest, slots, n + 1⟩, pool⟩ := by
    simp [fsStep, step, unlink, Vfs.unlink, Vfs.unlinkChild, Vfs.lookup, Vfs.getType,
      Vfs.getCapacity, Vfs.newNode, Vnode.setName, Vfs.node, Vfs.findSlot, slotOf, hx, hy, rootId, Vfs.rootNode,
      Vfs.vnodeAt, Vfs.setSlot, n0, n1, n2, n3, Vfs.modify, List.findIdx?_cons, maxName, Str.letter]
  simp only [spin, run_cons, run_nil, create, remove]

theorem run_spins (hx : x.id = 2) (hy : y.id = 3) (k : Nat) (n : UInt64) (large : 0 < k → 3 < n.toNat)
    (end' : n.toNat + k ≤ 2 ^ 64) :
    run fsStep ⟨⟨Vfs.rootNode :: x :: y :: {} :: rest, slots, n⟩, pool⟩ (List.replicate k spin).flatten =
      ⟨⟨Vfs.rootNode :: x :: y :: {} :: rest, slots, n + UInt64.ofNat k⟩, pool⟩ := by
  induction k generalizing n with
  | zero => simp
  | succ k ih =>
    have large := large (succ_pos k)
    have next : 0 < k → (n + 1).toNat = n.toNat + 1 := by
      intro pos
      rw [UInt64.toNat_add, UInt64.toNat_one, mod_eq_of_lt (by omega)]
    have sum : n + 1 + UInt64.ofNat k = n + UInt64.ofNat (k + 1) := by
      rw [UInt64.add_assoc, UInt64.ofNat_add, UInt64.add_comm 1]
      rfl
    rw [replicate_succ, flatten_cons, run_append, run_spin slots pool hx hy n large]
    rcases Nat.eq_zero_or_pos k with rfl | pos
    · simp
    · rw [ih (n + 1) (fun _ => by rw [next pos]; omega) (by rw [next pos]; omega), sum]

end Spin

/-- A file that no directory lists. -/
def stray : Vnode := Vfs.newNode (0, 0) 2 99 (.letter 0) .file

/-- A file of the largest size that lists itself: it was made under the id it was about to get. -/
def knot : Vnode :=
  { Vfs.newNode (0, 0) 3 3 (.letter 1) .file with
    childIds := [3], dataOffset := 1, size := UInt64.ofNat maxFileSize, dataCap := UInt64.ofNat maxFileSize }

/-- The second vnode with the id of the root. -/
def usurper : Vnode := Vfs.newNode (0, 0) 1 2 (.letter 3) .file

def opening : List FsOp :=
  [.ramfs (.createFile (0, 0) 99 (.letter 0)), .ramfs (.createFile (0, 0) 3 (.letter 1)), .ramfs (.write 3 bigFile)]

/-- The counter stands at 0: the stray gets a child with id 1, and under the name of the root that
child is the root, which is empty. -/
def takeover : List FsOp :=
  [.ramfs (.createFile (0, 0) 99 (.letter 2)), .ramfs (.createFile (0, 0) 2 (.letter 3)),
    .unlinkVnode 2 ⟨[0x2F], by decide⟩]

def closing : List FsOp :=
  [.ramfs (.createFile (0, 0) 99 (.letter 4)), .ramfs (.createFile (0, 0) 1 (.letter 5))]

/-- One write of the largest size to a blank vnode of a table. -/
theorem write_bigFile (t : Vfs) {pool : Pool} (id off : UInt64) {v : Vnode} (hv : t.node id = some v)
    (cap : v.dataCap = 0) (free : pool.free = []) (next : pool.nextOffset = off) (started : off ≠ 0)
    (fits : ¬ off + UInt64.ofNat maxFileSize > UInt64.ofNat dataPoolSize) :
    ∃ pool' : Pool, pool'.free = [] ∧ pool'.nextOffset = off + UInt64.ofNat maxFileSize ∧
      fsStep ⟨t, pool⟩ (.ramfs (.write id bigFile)) =
        ⟨t.setDataFull id off (UInt64.ofNat maxFileSize) (UInt64.ofNat maxFileSize), pool'⟩ := by
  have filled : ∀ (data : Bytes) (p : Pool) (u : Vfs), ∃ q : Pool, q.free = p.free ∧
      q.nextOffset = p.nextOffset ∧ fill ⟨u, p⟩ off data = ⟨u, q⟩ :=
    fun data p u => ⟨(fill ⟨u, p⟩ off data).pool, rfl, rfl, rfl⟩
  have written := writeFile_bigFile (s := ⟨t, pool⟩) hv cap free (by rw [next]; exact started)
  rw [next, if_neg fits] at written
  obtain ⟨q, sameFree, sameNext, result⟩ := filled bigFile { pool with nextOffset := off + UInt64.ofNat maxFileSize }
    (t.setDataFull id off (UInt64.ofNat maxFileSize) (UInt64.ofNat maxFileSize))
  exact ⟨q, sameFree.trans free, sameNext, written.trans result⟩

theorem run_opening : ∃ pool : Pool, pool.free = [] ∧ pool.nextOffset = 65537 ∧ run fsStep boot opening =
      ⟨⟨Vfs.rootNode :: stray :: knot :: {} :: List.replicate 60 {}, rfl, 4⟩, pool⟩ := by
  let blank : Vnode := { Vfs.newNode (0, 0) 3 3 (.letter 1) .file with childIds := [3] }
  obtain ⟨pool, free, next, written⟩ := write_bigFile
    ⟨Vfs.rootNode :: stray :: blank :: {} :: List.replicate 60 {}, rfl, 4⟩ 3 1 (v := blank)
    rfl rfl (show ({} : Pool).free = [] from rfl) rfl (by decide) (by decide)
  exact ⟨pool, free, next, written⟩

theorem run_takeover (pool : Pool) :
    run fsStep ⟨⟨Vfs.rootNode :: stray :: knot :: {} :: List.replicate 60 {}, rfl, 0⟩, pool⟩ takeover =
      ⟨⟨{} :: stray :: knot :: usurper :: List.replicate 60 {}, rfl, 2⟩, pool⟩ := by
  rfl

/-- The table that is left: the root is a file of the largest size, and lists the knot. -/
def overgrown : Vfs where
  vnodes := Vfs.newNode (0, 0) 2 99 (.letter 4) .file :: stray :: knot ::
    { usurper with
      childIds := [3], dataOffset := 65537, size := UInt64.ofNat maxFileSize, dataCap := UInt64.ofNat maxFileSize } ::
    Vfs.newNode (0, 0) 3 1 (.letter 5) .file :: List.replicate 59 {}
  slots := rfl
  nextId := 4

theorem run_closing {pool : Pool} (free : pool.free = []) (next : pool.nextOffset = 65537) :
    ∃ pool', run fsStep ⟨⟨{} :: stray :: knot :: usurper :: List.replicate 60 {}, rfl, 2⟩, pool⟩
      (.ramfs (.write 1 bigFile) :: closing) = ⟨overgrown, pool'⟩ := by
  obtain ⟨pool', _, _, written⟩ := write_bigFile
    ⟨{} :: stray :: knot :: usurper :: List.replicate 60 {}, rfl, 2⟩ 1 65537 (v := usurper) rfl rfl free next
    (by decide) (by decide)
  refine ⟨pool', ?_⟩
  rw [run_cons, written]
  rfl

/-- A node that lists itself fills the queue. -/
theorem levelLoop_self {kids : UInt64 → List UInt64} {x : UInt64} (self : kids x = [x]) {cap : Nat} (n : Nat)
    {tail : Nat} (fits : tail + n ≤ cap + 1) : levelLoop kids cap n [x] tail = List.replicate n x := by
  induction n generalizing tail with
  | zero => rfl
  | succ n ih =>
    rcases Nat.eq_zero_or_pos n with rfl | pos
    · rfl
    have next : (kids x).take (cap - tail) = [x] := by
      rw [self]
      exact take_of_length_le (by rw [length_singleton]; omega)
    simp only [levelLoop, next, nil_append, length_singleton]
    rw [ih (by omega)]
    rfl

theorem collectOrder_overgrown : collectOrder overgrown = 1 :: List.replicate 63 3 := by
  have self : listedIds overgrown 3 = [3] := by decide +kernel
  have first : collectOrder overgrown = 1 :: levelLoop (listedIds overgrown) maxVnodes 63 [3] 2 := by
    rfl
  rw [first, levelLoop_self self 63 (by decide)]

/-- Files of 16 blocks are saved as long as they fit. -/
theorem saveNodes_large {ids : List UInt64}
    (large : ∀ id ∈ ids, s.vfs.getType id = some .file ∧ s.vfs.getSize id = UInt64.ofNat maxFileSize)
    {st : SaveState} (saved : (saveNodes s ids st).1 = true) : ids = [] ∨ st.nextData + 16 * ids.length ≤ 1024 - 3 := by
  induction ids generalizing st with
  | nil => exact .inl rfl
  | cons id rest ih =>
    right
    obtain ⟨⟨kind, size⟩, others⟩ := forall_mem_cons.mp large
    have one : (saveNode s st id).1 = true → st.nextData + 16 ≤ 1024 - 3 ∧
        (saveNode s st id).2.nextData = st.nextData + 16 := by
      have sixteen : ((UInt64.ofNat maxFileSize).toNat + blockSize - 1) / blockSize = 16 := by decide
      unfold saveNode
      simp only [kind, size]
      rw [if_neg (by simp [inodeOf]), if_neg (by decide)]
      split
      · intro h
        cases h
      split
      · intro h
        cases h
      intro _
      exact ⟨by omega, rfl⟩
    dsimp only [saveNodes] at saved
    split at saved
    next ok =>
      obtain ⟨room, next⟩ := one ok
      rcases ih others saved with rfl | more
      · exact room
      rw [length_cons]
      omega
    · cases saved

theorem saveNodes_of_save {d : Drive} (saved : (save s d).1 = true) :
    (saveNodes s (collectOrder s.vfs) { drive := d }).1 = true := by
  by_contra failed
  rw [Bool.not_eq_true] at failed
  dsimp only [save] at saved
  rw [failed] at saved
  cases saved

/-- A file system that calls have made and that no disk holds: 64 times 16 blocks. -/
theorem wrapped_ids_overflow_the_disk : ¬ ∀ ops : List FsOp, Throughout fsStep Ramfs.Saves boot ops := by
  intro all
  obtain ⟨pool, free, next, opened⟩ := run_opening
  obtain ⟨pool', closed⟩ := run_closing free next
  have slots : (Vfs.rootNode :: stray :: knot :: {} :: List.replicate 60 {}).length = maxVnodes := rfl
  have spins := run_spins slots pool rfl rfl (2 ^ 64 - 4) 4 (fun _ => by decide) (by decide)
  have zero : (4 : UInt64) + UInt64.ofNat (2 ^ 64 - 4) = 0 := by decide
  rw [zero] at spins
  have whole : run fsStep boot (opening ++ ((List.replicate (2 ^ 64 - 4) spin).flatten ++
      (takeover ++ .ramfs (.write 1 bigFile) :: closing))) = ⟨overgrown, pool'⟩ := by
    rw [run_append, opened, run_append, spins, run_append, run_takeover, closed]
  have saves := (all (opening ++ ((List.replicate (2 ^ 64 - 4) spin).flatten ++
    (takeover ++ .ramfs (.write 1 bigFile) :: closing)))).last
  rw [whole] at saves
  have saved := (saves goodDrive fun _ => rfl).1
  have nodes : (saveNodes ⟨overgrown, pool'⟩ (1 :: List.replicate 63 3) { drive := goodDrive }).1 = true := by
    rw [← collectOrder_overgrown]
    exact saveNodes_of_save saved
  have large : ∀ id ∈ (1 :: List.replicate 63 3 : List UInt64),
      overgrown.getType id = some .file ∧ overgrown.getSize id = UInt64.ofNat maxFileSize := by
    refine forall_mem_cons.mpr ⟨⟨rfl, rfl⟩, ?_⟩
    intro id mem
    obtain rfl := eq_of_mem_replicate mem
    exact ⟨rfl, rfl⟩
  rcases saveNodes_large large nodes with empty | room
  · cases empty
  · exact absurd room (by decide)

end BarryOS.Fs
