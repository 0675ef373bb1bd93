import BarryOS.Fs.Ramfs
import BarryOS.Fs.VfsLinks
import BarryOS.Lib.Run

/-!
# File content isolation

The allocator is described by what it does to the extents its callers hold: `Held`
extents stay held, a new one is apart from all of them, and one that is given back
goes to the free list. On top of that, every vnode holds its own extent and its bytes
are those of the last write that succeeded.

`alloc_data` moves the bump pointer before it looks at the pool's end and does not
move it back, so refused writes walk it up to 2^64, where `off + n` wraps and a block
outside the pool is handed out (`refused_writes_leave_the_pool`). Short of that
(`Admits`), files are isolated.
-/

namespace BarryOS.Fs

open Lib Ramfs List Nat UInt64 Function
open Function (update)

def FreeBlock.extent (b : FreeBlock) : Extent := ⟨b.off.toNat, b.size.toNat⟩

/-- What a vnode has reserved. -/
def Vnode.extent (v : Vnode) : Extent := ⟨v.dataOffset.toNat, v.dataCap.toNat⟩

/-- A non-empty part of the pool. -/
structure InPool (e : Extent) : Prop where
  nonempty : 0 < e.size
  start : 1 ≤ e.off
  stop : e.off + e.size ≤ dataPoolSize

theorem InPool.inside {a b : Extent} (h : InPool b) (part : a.Inside b) (nonempty : 0 < a.size) : InPool a := by
  have bounds := part.bounds nonempty
  exact ⟨nonempty, le_trans h.start bounds.1, le_trans bounds.2 h.stop⟩

variable {p : Pool} {n : UInt64} {v : Vnode}

namespace Pool

/-! ## The allocator -/

/-- The free blocks are parts of the pool below the bump pointer, and apart. -/
structure Tidy (p : Pool) : Prop where
  started : 1 ≤ p.nextOffset.toNat
  inPool : ∀ b ∈ p.free, InPool b.extent
  below : ∀ b ∈ p.free, b.extent.off + b.extent.size ≤ p.nextOffset.toNat
  apart : p.free.Pairwise fun a b => a.extent.Apart b.extent

/-- An extent in somebody's hands: the allocator will not touch it. -/
structure Held (p : Pool) (e : Extent) : Prop where
  inPool : InPool e
  below : e.off + e.size ≤ p.nextOffset.toNat
  apart : ∀ b ∈ p.free, e.Apart b.extent

/-- The bump pointer does not wrap when it is moved by `n`. -/
def Bumps (p : Pool) (n : UInt64) : Prop :=
  p.fit n = none → p.nextOffset.toNat + n.toNat < 2 ^ 64

/-- What a successful reservation gives: a new extent, apart from those held before. -/
structure Allocated (p q : Pool) (e : Extent) : Prop where
  tidy : Tidy q
  bytes : q.bytes = p.bytes
  held : ∀ f, Held p f → Held q f
  mine : Held q e
  apart : ∀ f, Held p f → f.Apart e

/-- A free block `b` is taken off the list; part of it, `e`, is handed out, and the rest, if
anything is left, goes back. -/
theorem Allocated.of_carve (h : Tidy p) {b : FreeBlock} {others rest free : List FreeBlock}
    {e : Extent} (before : p.free.Perm (b :: others)) (after : free.Perm (rest ++ others))
    (taken : e.Inside b.extent) (nonempty : 0 < e.size) (one : rest.length ≤ 1)
    (left : ∀ r ∈ rest, r.extent.Inside b.extent ∧ 0 < r.extent.size ∧ e.Apart r.extent) :
    Allocated p { p with free := free } e := by
  have member : b ∈ p.free := before.mem_iff.mpr mem_cons_self
  have place := h.inPool b member
  have below := h.below b member
  have wasFree : ∀ c ∈ others, c ∈ p.free := fun c hc => before.mem_iff.mpr (mem_cons_of_mem _ hc)
  have apart := pairwise_cons.mp ((before.pairwise_iff fun h => h.symm).mp h.apart)
  have which : ∀ c ∈ free, c ∈ rest ∨ c ∈ others := by
    intro c hc
    exact mem_append.mp (after.mem_iff.mp hc)
  have restAlone : rest.Pairwise fun a b => a.extent.Apart b.extent := by
    match rest, one with
    | [], _ => exact Pairwise.nil
    | [r], _ => exact pairwise_singleton _ r
  refine ⟨⟨h.started, ?_, ?_, ?_⟩, rfl, ?_, ⟨place.inside taken nonempty, ?_, ?_⟩, ?_⟩
  · intro c hc
    rcases which c hc with hc | hc
    · exact place.inside (left c hc).1 (left c hc).2.1
    · exact h.inPool c (wasFree c hc)
  · intro c hc
    rcases which c hc with hc | hc
    · exact le_trans ((left c hc).1.bounds (left c hc).2.1).2 below
    · exact h.below c (wasFree c hc)
  · refine (after.pairwise_iff fun h => h.symm).mpr (pairwise_append.mpr ⟨restAlone, apart.2, ?_⟩)
    intro r hr c hc
    exact ((apart.1 c hc).symm.inside (left r hr).1).symm
  · intro f hf
    refine ⟨hf.inPool, hf.below, ?_⟩
    intro c hc
    rcases which c hc with hc | hc
    · exact (hf.apart b member).inside (left c hc).1
    · exact hf.apart c (wasFree c hc)
  · exact le_trans (taken.bounds nonempty).2 below
  · intro c hc
    rcases which c hc with hc | hc
    · exact (left c hc).2.2
    · exact ((apart.1 c hc).symm.inside taken).symm
  · intro f hf
    exact (hf.apart b member).inside taken

variable {i : Nat}

theorem fit_some (h : p.fit n = some i) : ∃ hi : i < p.free.length, n ≤ p.free[i].size := by
  obtain ⟨hi, fits, _⟩ := findIdx?_eq_some_iff_getElem.mp h
  exact ⟨hi, by simpa using fits⟩

theorem toNat_pos (h : n ≠ 0) : 0 < n.toNat :=
  Nat.pos_of_ne_zero fun zero => h (UInt64.toNat_inj.mp zero)

/-- First fit: the front of a free block is handed out, and what is left of it goes back. -/
theorem allocData_carves (inPool : ∀ b ∈ p.free, InPool b.extent) (hn : n ≠ 0)
    (fits : p.fit n = some i) : ∃ b others left free, p.free.Perm (b :: others) ∧ free.Perm (left ++ others) ∧
      p.allocData n = (b.off, { p with free := free }) ∧ left.length ≤ 1 ∧
      (left.map fun r => r.size.toNat).sum + n.toNat = b.size.toNat ∧
      ∀ r ∈ left, 0 < r.size.toNat ∧ r.off.toNat = b.off.toNat + n.toNat ∧ n.toNat + r.size.toNat = b.size.toNat := by
  obtain ⟨hi, enough⟩ := fit_some fits
  have here : p.free.getD i ⟨0, 0⟩ = p.free[i] := by simp [hi]
  have before : p.free.Perm (p.free[i] :: p.free.eraseIdx i) := (getElem_cons_eraseIdx_perm hi).symm
  have stop := (inPool _ (getElem_mem hi)).stop
  simp only [FreeBlock.extent, dataPoolSize] at stop
  have size := UInt64.toNat_sub_of_le _ _ enough
  have enough := UInt64.le_iff_toNat_le.mp enough
  unfold allocData
  rw [if_neg hn, fits]
  dsimp only
  rw [here]
  split
  next more =>
    have more := UInt64.lt_iff_toNat_lt.mp more
    have off : (p.free[i].off + n).toNat = p.free[i].off.toNat + n.toNat := by
      rw [UInt64.toNat_add]
      omega
    refine ⟨_, _, [⟨p.free[i].off + n, p.free[i].size - n⟩], _, before, set_perm hi _, rfl, le_refl 1, ?_, ?_⟩
    · simp only [map_cons, map_nil, sum_cons, sum_nil]
      omega
    · intro r hr
      rw [mem_singleton] at hr
      subst hr
      exact ⟨by rw [size]; omega, off, by rw [size]; omega⟩
  next less =>
    have less := Nat.le_of_not_lt (mt UInt64.lt_iff_toNat_lt.mpr less)
    refine ⟨_, _, [], _, before, ((swapRemove_perm hi).symm.trans before).cons_inv, rfl, zero_le 1, ?_, by simp⟩
    simp only [map_nil, sum_nil]
    omega

/-- The first-fit branch: the front of a free block is taken. -/
theorem allocData_fit (h : Tidy p) (hn : n ≠ 0) (fits : p.fit n = some i) :
    Allocated p (p.allocData n).2 ⟨(p.allocData n).1.toNat, n.toNat⟩ := by
  obtain ⟨b, others, left, free, before, after, result, one, size, rest⟩ := allocData_carves h.inPool hn fits
  rw [result]
  refine Allocated.of_carve h before after ?_ (toNat_pos hn) one ?_
  · rintro x ⟨le, lt⟩
    exact ⟨le, Nat.lt_of_lt_of_le lt (Nat.add_le_add_left (by simp only [FreeBlock.extent]; omega) _)⟩
  · intro r hr
    obtain ⟨positive, off, size⟩ := rest r hr
    refine ⟨?_, positive, Extent.apart_of_le (le_of_eq off.symm)⟩
    rintro x ⟨le, lt⟩
    unfold Extent.Has
    simp only [FreeBlock.extent] at le lt ⊢
    omega

theorem allocData_cases (h : Tidy p) (hn : n ≠ 0) (room : p.Bumps n) :
    ((p.allocData n).1 = 0 ∧ Tidy (p.allocData n).2 ∧ (p.allocData n).2.bytes = p.bytes ∧
        ∀ f, Held p f → Held (p.allocData n).2 f) ∨
      (p.allocData n).1 ≠ 0 ∧ Allocated p (p.allocData n).2 ⟨(p.allocData n).1.toNat, n.toNat⟩ := by
  cases fits : p.fit n with
  | none =>
    have positive := toNat_pos hn
    have next : (p.nextOffset + n).toNat = p.nextOffset.toNat + n.toNat := by
      rw [UInt64.toNat_add, mod_eq_of_lt (room fits)]
    have started := h.started
    have grown : ∀ {x}, x ≤ p.nextOffset.toNat → x ≤ (p.nextOffset + n).toNat := by
      intro x hx
      omega
    have tidy : Tidy { p with nextOffset := p.nextOffset + n } :=
      ⟨grown h.started, h.inPool, fun b hb => grown (h.below b hb), h.apart⟩
    have held : ∀ f, Held p f → Held { p with nextOffset := p.nextOffset + n } f :=
      fun f hf => ⟨hf.inPool, grown hf.below, hf.apart⟩
    unfold allocData
    rw [if_neg hn, fits]
    dsimp only
    split
    · exact .inl ⟨rfl, tidy, rfl, held⟩
    rename_i inside
    right
    have stop : p.nextOffset.toNat + n.toNat ≤ dataPoolSize := by
      rw [gt_iff_lt, lt_iff_toNat_lt, next] at inside
      have bound : (UInt64.ofNat dataPoolSize).toNat = dataPoolSize := by decide
      exact Nat.le_of_not_lt inside
    have notZero : p.nextOffset ≠ 0 := by
      intro e
      rw [e] at started
      simp at started
    refine ⟨notZero, tidy, rfl, held, ⟨⟨positive, started, stop⟩, ?_, ?_⟩, ?_⟩
    · exact le_of_eq next.symm
    · intro b hb
      exact (Extent.apart_of_le (h.below b hb)).symm
    · intro f hf
      exact Extent.apart_of_le hf.below
  | some i =>
    have alloc := allocData_fit h hn fits
    refine .inr ⟨?_, alloc⟩
    intro zero
    have := alloc.mine.inPool.start
    simp [zero] at this

/-- An extent that is given back is no longer held; those apart from it still are. -/
theorem freeData_spec (h : Tidy p) {off size : UInt64} (mine : Held p ⟨off.toNat, size.toNat⟩) :
    Tidy (p.freeData off size) ∧ (p.freeData off size).bytes = p.bytes ∧
      ∀ f, Held p f → f.Apart ⟨off.toNat, size.toNat⟩ → Held (p.freeData off size) f := by
  unfold freeData
  split
  · exact ⟨h, rfl, fun f hf _ => hf⟩
  split
  · exact ⟨h, rfl, fun f hf _ => hf⟩
  have which : ∀ b ∈ p.free ++ [⟨off, size⟩], b ∈ p.free ∨ b = ⟨off, size⟩ := by
    intro b hb
    simpa using hb
  refine ⟨⟨h.started, ?_, ?_, ?_⟩, rfl, ?_⟩
  · intro b hb
    rcases which b hb with hb | rfl
    · exact h.inPool b hb
    · exact mine.inPool
  · intro b hb
    rcases which b hb with hb | rfl
    · exact h.below b hb
    · exact mine.below
  · refine pairwise_append.mpr ⟨h.apart, pairwise_singleton _ _, ?_⟩
    intro a ha b hb
    rw [mem_singleton.mp hb]
    exact (mine.apart a ha).symm
  · intro f hf apart
    refine ⟨hf.inPool, hf.below, ?_⟩
    intro b hb
    rcases which b hb with hb | rfl
    · exact hf.apart b hb
    · exact apart

/-- The extent of a vnode is given back, if it has one. -/
theorem release_spec (h : Tidy p) (mine : v.dataCap ≠ 0 → Held p v.extent) {q : Pool}
    (hq : q = if v.dataCap > 0 then p.freeData v.dataOffset v.dataCap else p) :
    Tidy q ∧ q.bytes = p.bytes ∧ ∀ f, Held p f → (v.dataCap ≠ 0 → f.Apart v.extent) → Held q f := by
  subst hq
  split
  next used =>
    have cap : v.dataCap ≠ 0 := by
      intro e
      rw [e] at used
      exact absurd used (by decide)
    obtain ⟨tidy, bytes, held⟩ := freeData_spec h (mine cap)
    exact ⟨tidy, bytes, fun f hf apart => held f hf (apart cap)⟩
  · exact ⟨h, rfl, fun f hf _ => hf⟩

end Pool

/-! ## Files -/

/-- The filesystem, with the data that each vnode should hold: that of the last write to it
that reported success, cut to the maximum file size. -/
structure Ledger where
  fs : Ramfs
  content : UInt64 → Bytes := fun _ => []

/-- `write_file` reports success: the vnode is there and all that fits a file was taken. -/
def Ramfs.writeSucceeds (s : Ramfs) (id : UInt64) (data : Bytes) : Prop :=
  s.vfs.node id ≠ none ∧ (s.writeFile id data).1 = writeLen data

instance (s : Ramfs) (id : UInt64) (data : Bytes) : Decidable (s.writeSucceeds id data) :=
  inferInstanceAs (Decidable (_ ∧ _))

/-- What each call does to the data that should be there; a new file is empty. -/
def Ledger.note (l : Ledger) : RamfsOp → UInt64 → Bytes
  | .createFile ids parent name =>
    update l.content (createFileIn ids l.fs parent name).1 []
  | .createDir ids parent name =>
    update l.content (createDirIn ids l.fs parent name).1 []
  | .write id data =>
    if l.fs.writeSucceeds id data then update l.content id (data.take maxFileSize)
    else l.content
  | _ => l.content

def Ledger.step (l : Ledger) (op : RamfsOp) : Ledger := ⟨l.fs.step op, l.note op⟩

/-- Every vnode holds its extent, and its bytes are the ones it should hold. -/
structure Stored (l : Ledger) : Prop where
  linked : l.fs.vfs.Linked
  tidy : l.fs.pool.Tidy
  held : ∀ {id v}, l.fs.vfs.node id = some v → v.dataCap ≠ 0 → l.fs.pool.Held v.extent
  apart : ∀ {id v id' v'}, l.fs.vfs.node id = some v → l.fs.vfs.node id' = some v' →
    v.dataCap ≠ 0 → v'.dataCap ≠ 0 → id ≠ id' → v.extent.Apart v'.extent
  sized : ∀ {id v}, l.fs.vfs.node id = some v → v.size.toNat ≤ v.dataCap.toNat
  small : ∀ {id v}, l.fs.vfs.node id = some v → v.size.toNat ≤ maxFileSize
  bytes : ∀ {id v}, l.fs.vfs.node id = some v → loadBytes l.fs.pool.bytes v.dataOffset.toNat v.size.toNat = l.content id

theorem Stored.of_each {m : Ledger} (linked : m.fs.vfs.Linked) (tidy : m.fs.pool.Tidy)
    (each : ∀ {id v}, m.fs.vfs.node id = some v → (v.dataCap ≠ 0 → m.fs.pool.Held v.extent) ∧
      v.size.toNat ≤ v.dataCap.toNat ∧ v.size.toNat ≤ maxFileSize ∧
      loadBytes m.fs.pool.bytes v.dataOffset.toNat v.size.toNat = m.content id)
    (apart : ∀ {id v id' v'}, m.fs.vfs.node id = some v → m.fs.vfs.node id' = some v' →
      v.dataCap ≠ 0 → v'.dataCap ≠ 0 → id ≠ id' → v.extent.Apart v'.extent) : Stored m :=
  ⟨linked, tidy, fun hv => (each hv).1, apart, fun hv => (each hv).2.1, fun hv => (each hv).2.2.1,
    fun hv => (each hv).2.2.2⟩

/-- A vnode's data fields. -/
structure SameData (v w : Vnode) : Prop where
  off : v.dataOffset = w.dataOffset
  size : v.size = w.size
  cap : v.dataCap = w.dataCap

theorem Vnode.cap_ne_zero (v : Vnode) {n : Nat} (pos : 0 < n) (fits : n ≤ v.dataCap.toNat) : v.dataCap ≠ 0 := by
  intro e
  rw [e, UInt64.toNat_zero] at fits
  omega

theorem SameData.extent {w : Vnode} (h : SameData v w) : v.extent = w.extent := by
  rw [Vnode.extent, Vnode.extent, h.off, h.cap]

/-- Some vnodes change hands: those that stay keep their data and are still held, and the
others are new and empty. -/
theorem Stored.of_rest {l m : Ledger} (h : Stored l) (linked : m.fs.vfs.Linked)
    (tidy : m.fs.pool.Tidy) (bytes : m.fs.pool.bytes = l.fs.pool.bytes)
    (rest : ∀ {id v}, m.fs.vfs.node id = some v → (v.dataCap = 0 ∧ v.size = 0 ∧ m.content id = []) ∨
      ∃ w, l.fs.vfs.node id = some w ∧ SameData v w ∧ m.content id = l.content id ∧
        (w.dataCap ≠ 0 → m.fs.pool.Held w.extent)) : Stored m := by
  refine .of_each linked tidy ?_ ?_
  · intro id v hv
    rcases rest hv with ⟨cap, zero, empty⟩ | ⟨w, hw, same, content, held⟩
    · rw [zero, empty]
      exact ⟨fun used => absurd cap used, zero_le _, zero_le _, rfl⟩
    rw [same.extent, same.cap, same.size, same.off, bytes, content]
    exact ⟨held, h.sized hw, h.small hw, h.bytes hw⟩
  · intro id v id' v' hv hv' cap cap' ne
    rcases rest hv with ⟨zero, _⟩ | ⟨w, hw, same, _⟩
    · exact absurd zero cap
    rcases rest hv' with ⟨zero, _⟩ | ⟨w', hw', same', _⟩
    · exact absurd zero cap'
    rw [same.extent, same'.extent]
    exact h.apart hw hw' (same.cap ▸ cap) (same'.cap ▸ cap') ne

variable {l : Ledger} {id : UInt64}

/-- The bytes of a file go to an extent of its own. -/
theorem Stored.of_fill (h : Stored l) {vfs : Vfs} {q : Pool} {bs : Bytes} (linked : vfs.Linked)
    (nodes : ∀ j, vfs.node j = if j = id then some v else l.fs.vfs.node j)
    (tidy : q.Tidy) (same : q.bytes = l.fs.pool.bytes) (mine : q.Held v.extent)
    (others : ∀ {j w}, l.fs.vfs.node j = some w → j ≠ id → w.dataCap ≠ 0 → q.Held w.extent ∧ w.extent.Apart v.extent)
    (size : v.size.toNat = bs.length) (short : bs.length ≤ maxFileSize) (fits : v.size.toNat ≤ v.dataCap.toNat) :
    Stored ⟨⟨vfs, { q with bytes := storeBytes q.bytes v.dataOffset.toNat bs }⟩,
      update l.content id bs⟩ := by
  have which : ∀ {j w}, vfs.node j = some w → (j = id ∧ w = v) ∨ (j ≠ id ∧ l.fs.vfs.node j = some w) := by
    intro j w hw
    rw [nodes] at hw
    split at hw
    · exact .inl ⟨by assumption, (Option.some.inj hw).symm⟩
    · exact .inr ⟨by assumption, hw⟩
  refine .of_each linked ⟨tidy.started, tidy.inPool, tidy.below, tidy.apart⟩ ?_ ?_
  · intro j w hw
    rcases which hw with ⟨rfl, rfl⟩ | ⟨ne, hw⟩
    · refine ⟨fun _ => ⟨mine.inPool, mine.below, mine.apart⟩, fits, le_trans (le_of_eq size) short, ?_⟩
      show loadBytes (storeBytes _ _ _) _ _ = update l.content j bs j
      rw [size, loadBytes_store, update_self]
    refine ⟨fun cap => ?_, h.sized hw, h.small hw, ?_⟩
    · have held := (others hw ne cap).1
      exact ⟨held.inPool, held.below, held.apart⟩
    · show loadBytes (storeBytes _ _ _) _ _ = update l.content id bs j
      rw [update_of_ne ne, ← h.bytes hw, same]
      rcases Nat.eq_zero_or_pos w.size.toNat with zero | pos
      · simp [zero]
      -- Both extents are in use, so they lie one after the other.
      have sized := h.sized hw
      have order := (others hw ne (w.cap_ne_zero pos sized)).2.ordered (lt_of_lt_of_le pos sized) mine.inPool.nonempty
      apply loadBytes_store_frame
      simp only [Vnode.extent] at order
      omega
  · intro j w j' w' hw hw' cap cap' ne
    rcases which hw with ⟨here, rfl⟩ | ⟨other, old⟩
    · rcases which hw' with ⟨here', _⟩ | ⟨other', old'⟩
      · exact absurd (here.trans here'.symm) ne
      · exact (others old' other' cap').2.symm
    rcases which hw' with ⟨_, rfl⟩ | ⟨other', old'⟩
    · exact (others old other cap).2
    · exact h.apart old old' cap cap' ne

/-- A new vnode is empty and nobody else's data changes. -/
theorem Stored.create (h : Stored l) (ids : UInt32 × UInt32) {parent : UInt64}
    {name : Str} {vtype : VnodeType} (kind : vtype ≠ .symlink) (room : l.fs.vfs.CountsOn parent name) :
    Stored ⟨{ l.fs with vfs := (Vfs.createNode ids l.fs.vfs parent name vtype).2 },
      update l.content (Vfs.createNode ids l.fs.vfs parent name vtype).1 []⟩ := by
  have linked := h.linked.createNode ids kind room
  have which := Vfs.createNode_cases h.linked.toTable ids vtype room
  generalize Vfs.createNode ids l.fs.vfs parent name vtype = r at *
  refine h.of_rest linked h.tidy rfl ?_
  intro id v hv
  obtain ⟨_, ⟨none, same⟩ | ⟨made, _, _, nodes⟩⟩ := which
  · refine .inr ⟨v, (same id).symm.trans hv, ⟨rfl, rfl, rfl⟩, ?_, ?_⟩
    · show update l.content r.1 [] id = _
      rw [none, update_of_ne (Vfs.node_id hv).2]
    · exact h.held ((same id).symm.trans hv)
  · obtain ⟨w, ⟨rfl, rfl⟩ | ⟨other, hw⟩, rfl⟩ := Vfs.createdNode_some ((nodes id).symm.trans hv)
    · refine .inl ⟨rfl, rfl, ?_⟩
      show update l.content r.1 [] _ = _
      rw [made, update_self]
    · refine .inr ⟨w, hw, ⟨rfl, rfl, rfl⟩, ?_, h.held hw⟩
      show update l.content r.1 [] id = _
      rw [made, update_of_ne other]

theorem Stored.rename (h : Stored l) (parent : UInt64) (old new : Str) :
    Stored ⟨(l.fs.rename parent old new).2, l.content⟩ := by
  refine h.of_rest (h.linked.rename parent old new) h.tidy rfl ?_
  intro id v hv
  right
  rcases Vfs.rename_cases h.linked.toTable parent old new with
    ⟨_, same⟩ | ⟨_, _, _, _, _, _, _, _, _, _, nodes⟩
  · have hv : (l.fs.vfs.rename parent old new).2.node id = some v := hv
    rw [same] at hv
    exact ⟨v, hv, ⟨rfl, rfl, rfl⟩, rfl, h.held hv⟩
  obtain ⟨w, hw, rfl⟩ := Vfs.renamedNode_some ((nodes id).symm.trans hv)
  refine ⟨w, hw, ?_, rfl, h.held hw⟩
  split <;> exact ⟨rfl, rfl, rfl⟩

theorem Stored.unlink (h : Stored l) (parent : UInt64) (name : Str) :
    Stored ⟨(l.fs.unlink parent name).2, l.content⟩ := by
  have linked := h.linked.unlink parent name
  rcases Vfs.unlink_cases h.linked.toTable parent name with
    ⟨refused, same⟩ | ⟨removed, _, p, c, _, _, hc, _, nodes⟩
  · have unchanged : (l.fs.unlink parent name).2 = l.fs := by
      unfold Ramfs.unlink
      dsimp only
      split
      · rfl
      · simp [refused, same]
    rw [unchanged]
    exact h
  · have notZero : l.fs.vfs.lookup parent name ≠ 0 := (Vfs.node_id hc).2
    have result : (l.fs.unlink parent name).2 = ⟨(l.fs.vfs.unlink parent name).2,
        if c.dataCap > 0 then l.fs.pool.freeData c.dataOffset c.dataCap else l.fs.pool⟩ := by
      unfold Ramfs.unlink
      dsimp only
      rw [if_neg notZero, removed, Vfs.getCapacity_eq hc, Vfs.getDataOffset_eq hc]
      rfl
    obtain ⟨tidy, bytes, held⟩ := Pool.release_spec h.tidy (h.held hc) rfl
    rw [result]
    refine h.of_rest linked tidy bytes ?_
    intro id v hv
    obtain ⟨ne, w, hw, rfl⟩ := Vfs.unlinkedNode_some ((nodes id).symm.trans hv)
    exact .inr ⟨w, hw, ⟨rfl, rfl, rfl⟩, rfl, fun capW => held _ (h.held hw capW) fun cap => h.apart hw hc capW cap ne⟩

/-! ### Writing -/

variable (s : Ramfs) (offset : UInt64) (data : Bytes)

@[simp] theorem Ramfs.fill_vfs : (s.fill offset data).vfs = s.vfs := rfl

@[simp] theorem Ramfs.fill_free : (s.fill offset data).pool.free = s.pool.free := rfl

@[simp] theorem Ramfs.fill_nextOffset : (s.fill offset data).pool.nextOffset = s.pool.nextOffset := rfl

theorem Ramfs.writeFile_absent {s : Ramfs} (h : s.vfs.node id = none) (data : Bytes) :
    s.writeFile id data = (0, s) := by
  unfold writeFile
  rw [Vfs.findSlot_none_of_node h]

theorem Ramfs.writeFile_node {s : Ramfs} (h : s.vfs.node id = some v) (data : Bytes) : s.writeFile id data =
      if UInt64.ofNat (writeLen data) = 0 then (0, ⟨s.vfs.setDataFull id 0 0 0,
          if v.dataCap > 0 then s.pool.freeData v.dataOffset v.dataCap else s.pool⟩)
      else if v.dataCap ≥ UInt64.ofNat (writeLen data) then ((UInt64.ofNat (writeLen data)).toNat,
          fill { s with vfs := s.vfs.setData id v.dataOffset (UInt64.ofNat (writeLen data)) } v.dataOffset data)
      else
        let r := s.pool.allocData (UInt64.ofNat (writeLen data))
        if r.1 = 0 then (0, { s with pool := r.2 })
        else ((UInt64.ofNat (writeLen data)).toNat, fill ⟨s.vfs.setDataFull id r.1 (UInt64.ofNat (writeLen data))
              (UInt64.ofNat (writeLen data)),
            if v.dataCap > 0 then r.2.freeData v.dataOffset v.dataCap else r.2⟩ r.1 data) := by
  obtain ⟨slot, hs, _⟩ := Vfs.findSlot_of_node h
  unfold writeFile
  rw [hs, Vfs.getDataOffset_eq h, Vfs.getCapacity_eq h]

theorem writeLen_toNat : (UInt64.ofNat (writeLen data)).toNat = writeLen data := by
  rw [toNat_ofNat']
  unfold writeLen maxFileSize
  omega

theorem take_length_writeLen : (data.take maxFileSize).length = writeLen data := by
  rw [length_take, writeLen, min_comm]

/-- `write_file` asks the allocator: the vnode is there and its extent is too small. -/
def Ramfs.grows (s : Ramfs) (id : UInt64) (data : Bytes) : Prop :=
  ∃ v, s.vfs.node id = some v ∧ v.dataCap < UInt64.ofNat (writeLen data)

section Write

variable {l : Ledger} {id : UInt64} {v : Vnode} {data : Bytes} {len : UInt64}

theorem step_write_ok (ok : l.fs.writeSucceeds id data) : l.step (.write id data) = ⟨(l.fs.writeFile id data).2,
      update l.content id (data.take maxFileSize)⟩ := by
  simp only [Ledger.step, Ledger.note, step, ok, ↓reduceIte]

theorem step_write_failed (failed : ¬ l.fs.writeSucceeds id data) :
    l.step (.write id data) = ⟨(l.fs.writeFile id data).2, l.content⟩ := by
  simp only [Ledger.step, Ledger.note, step, failed, ↓reduceIte]

section

variable (h : Stored l) (hv : l.fs.vfs.node id = some v)

include h hv

theorem Stored.write_empty (empty : writeLen data = 0) : Stored (l.step (.write id data)) := by
  have result := writeFile_node hv data
  rw [empty, if_pos (by decide)] at result
  have noBytes : data.take maxFileSize = [] := eq_nil_of_length_eq_zero ((take_length_writeLen data).trans empty)
  obtain ⟨tidy, bytes, held⟩ := Pool.release_spec h.tidy (h.held hv) rfl
  rw [step_write_ok ⟨by simp [hv], by rw [result, empty]⟩, result, noBytes]
  refine h.of_rest (h.linked.setDataFull id 0 0 0) tidy bytes ?_
  intro j w hw
  have hw := (Vfs.setDataFull_node hv 0 0 0 j).symm.trans hw
  split at hw
  next here =>
    cases hw
    exact .inl ⟨rfl, rfl, by rw [here]; exact update_self ..⟩
  rename_i other
  exact .inr ⟨w, hw, ⟨rfl, rfl, rfl⟩, update_of_ne other ..,
    fun capW => held _ (h.held hw capW) fun cap => h.apart hw hv capW cap other⟩

theorem Stored.write_inPlace (some' : 0 < writeLen data) (fits : writeLen data ≤ v.dataCap.toNat) :
    Stored (l.step (.write id data)) := by
  have result := writeFile_node hv data
  have lenNat := writeLen_toNat data
  generalize UInt64.ofNat (writeLen data) = len at *
  have nonzero : len ≠ 0 := by
    rintro rfl
    simp at lenNat
    omega
  have enough : v.dataCap ≥ len := le_iff_toNat_le.mpr (by omega)
  rw [if_neg nonzero, if_pos enough] at result
  have cap := v.cap_ne_zero some' fits
  have others : ∀ {j w}, l.fs.vfs.node j = some w → j ≠ id → w.dataCap ≠ 0 →
      w.extent.Apart v.extent := fun hw ne capW => h.apart hw hv capW cap ne
  rw [step_write_ok ⟨by simp [hv], by rw [result, lenNat]⟩, result]
  exact h.of_fill (v := { v with size := len }) (h.linked.setData id v.dataOffset len)
    (Vfs.setData_node hv v.dataOffset len) h.tidy rfl (h.held (v := v) hv cap)
    (fun hw ne capW => ⟨h.held hw capW, others hw ne capW⟩)
    (by rw [take_length_writeLen, lenNat]) (length_take_le _ _)
    (by show len.toNat ≤ v.dataCap.toNat; omega)

/-- The data needs an extent of its own, and the pool grants one or refuses. -/
theorem Stored.write_grow (tooSmall : v.dataCap.toNat < writeLen data)
    (room : l.fs.pool.Bumps (UInt64.ofNat (writeLen data))) : Stored (l.step (.write id data)) := by
  have result := writeFile_node hv data
  have lenNat := writeLen_toNat data
  generalize UInt64.ofNat (writeLen data) = len at *
  have nonzero : len ≠ 0 := by
    rintro rfl
    simp at lenNat
    omega
  have small : ¬ v.dataCap ≥ len := by
    rw [ge_iff_le, le_iff_toNat_le]
    omega
  rw [if_neg nonzero, if_neg small] at result
  rcases Pool.allocData_cases h.tidy nonzero room with
    ⟨refused, tidy, bytes, held⟩ | ⟨granted, alloc⟩
  · rw [if_pos refused] at result
    have failed : ¬ l.fs.writeSucceeds id data := by
      rintro ⟨_, ok⟩
      rw [result] at ok
      omega
    rw [step_write_failed failed, result]
    refine h.of_rest h.linked tidy bytes ?_
    intro j w hw
    exact .inr ⟨w, hw, ⟨rfl, rfl, rfl⟩, rfl, fun cap => held _ (h.held hw cap)⟩
  · rw [if_neg granted] at result
    generalize l.fs.pool.allocData len = r at *
    -- The old extent goes back while the new one and everybody else's are held.
    obtain ⟨tidy, bytes, held⟩ := Pool.release_spec alloc.tidy (fun cap => alloc.held _ (h.held hv cap)) rfl
    rw [step_write_ok ⟨by simp [hv], by rw [result, lenNat]⟩, result]
    refine h.of_fill (v := { v with dataOffset := r.1, size := len, dataCap := len })
      (h.linked.setDataFull id r.1 len len) (Vfs.setDataFull_node hv r.1 len len) tidy
      (bytes.trans alloc.bytes) (held _ alloc.mine fun cap => (alloc.apart _ (h.held hv cap)).symm)
      ?_ (by rw [take_length_writeLen, lenNat]) (length_take_le _ _) (le_refl _)
    intro j w hw ne capW
    have old := h.held hw capW
    exact ⟨held _ (alloc.held _ old) fun cap => h.apart hw hv capW cap ne, alloc.apart _ old⟩

end

end Write

theorem Stored.write (h : Stored l) (id : UInt64) (data : Bytes)
    (room : l.fs.grows id data → l.fs.pool.Bumps (UInt64.ofNat (writeLen data))) :
    Stored (l.step (.write id data)) := by
  cases hv : l.fs.vfs.node id with
  | none =>
    rw [step_write_failed fun ok => ok.1 hv, writeFile_absent hv]
    exact h
  | some v =>
    rcases Nat.eq_zero_or_pos (writeLen data) with empty | some'
    · exact h.write_empty hv empty
    rcases lt_or_ge v.dataCap.toNat (writeLen data) with small | fits
    · refine h.write_grow hv small (room ⟨v, hv, ?_⟩)
      rw [lt_iff_toNat_lt, writeLen_toNat]
      exact small
    · exact h.write_inPlace hv some' fits

/-! ## Runs -/

/-- The condition of one call: neither counter wraps. The id counter is moved by a create
that passes its checks, and the bump pointer by a write that finds no free block. -/
def Ramfs.Admits (s : Ramfs) : RamfsOp → Prop
  | .createFile _ parent name | .createDir _ parent name => s.vfs.CountsOn parent name
  | .write id data => s.grows id data → s.pool.Bumps (UInt64.ofNat (writeLen data))
  | _ => True

theorem Stored.step {op : RamfsOp} (h : Stored l) (admits : l.fs.Admits op) : Stored (l.step op) := by
  cases op with
  | createFile ids parent name => exact h.create ids (by decide) admits
  | createDir ids parent name => exact h.create ids (by decide) admits
  | write id data => exact h.write id data admits
  | rename parent old new => exact h.rename parent old new
  | unlink parent name => exact h.unlink parent name

/-- A reset table holds nothing of the pool, whatever the pool is. -/
theorem Stored.reset (tidy : p.Tidy) : Stored ⟨⟨Vfs.reset, p⟩, fun _ => []⟩ := by
  refine .of_each Vfs.Linked.reset tidy ?_ ?_
  · intro id v hv
    rw [(Vfs.reset_only hv).2]
    exact ⟨fun cap => absurd rfl cap, le_refl _, zero_le _, rfl⟩
  · intro id v id' v' hv _ cap
    rw [(Vfs.reset_only hv).2] at cap
    exact absurd rfl cap

theorem Stored.boot : Stored ⟨boot, fun _ => []⟩ :=
  Stored.reset ⟨by decide, by simp, by simp, Pairwise.nil⟩

/-- Files are isolated: what live vnodes and free blocks take of the pool is inside it and
pairwise apart, and a live vnode reads as the last write to it that succeeded. -/
structure Isolated (l : Ledger) : Prop where
  filesInside : ∀ v ∈ l.fs.vfs.vnodes, v.id ≠ 0 → v.dataCap ≠ 0 → InPool v.extent
  freeInside : ∀ b ∈ l.fs.pool.free, InPool b.extent
  filesApart : ∀ v ∈ l.fs.vfs.vnodes, ∀ w ∈ l.fs.vfs.vnodes, v.id ≠ 0 → w.id ≠ 0 → v.id ≠ w.id → v.extent.Apart w.extent
  freeApart : l.fs.pool.free.Pairwise fun a b => a.extent.Apart b.extent
  fileFreeApart : ∀ v ∈ l.fs.vfs.vnodes, v.id ≠ 0 → ∀ b ∈ l.fs.pool.free,
    v.extent.Apart b.extent
  reads : ∀ v ∈ l.fs.vfs.vnodes, v.id ≠ 0 → ∀ room,
    l.fs.readFile v.id room = (l.content v.id).take room

theorem apart_of_cap (h : v.dataCap = 0) (e : Extent) : v.extent.Apart e := by
  rintro x ⟨⟨le, lt⟩, _⟩
  simp only [Vnode.extent, h, UInt64.toNat_zero] at le lt
  omega

theorem Stored.readFile (h : Stored l) (hv : l.fs.vfs.node id = some v) (room : Nat) :
    l.fs.readFile id room = (l.content id).take room := by
  unfold Ramfs.readFile
  rw [Vfs.getSize_eq hv, Vfs.getDataOffset_eq hv, ← h.bytes hv, loadBytes_take, min_comm room]
  dsimp only
  split
  next empty =>
    have zero : v.size.toNat = 0 := by
      rcases empty with e | e
      · rw [e]
        rfl
      -- A vnode with data has an extent, and no extent starts at 0.
      by_contra some'
      have cap := v.cap_ne_zero (Nat.pos_of_ne_zero some') (h.sized hv)
      have start := (h.held hv cap).inPool.start
      simp [Vnode.extent, e] at start
    rw [zero]
    rfl
  · rfl

theorem Stored.isolated (h : Stored l) : Isolated l := by
  have node : ∀ v ∈ l.fs.vfs.vnodes, v.id ≠ 0 → l.fs.vfs.node v.id = some v :=
    fun v hv used => h.linked.node_of_mem hv used
  refine ⟨?_, h.tidy.inPool, ?_, h.tidy.apart, ?_, ?_⟩
  · intro v hv used cap
    exact (h.held (node v hv used) cap).inPool
  · intro v hv w hw usedV usedW ne
    by_cases capV : v.dataCap = 0
    · exact apart_of_cap capV _
    by_cases capW : w.dataCap = 0
    · exact (apart_of_cap capW _).symm
    · exact h.apart (node v hv usedV) (node w hw usedW) capV capW ne
  · intro v hv used b hb
    by_cases cap : v.dataCap = 0
    · exact apart_of_cap cap _
    · exact (h.held (node v hv used) cap).apart b hb
  · intro v hv used room
    exact h.readFile (node v hv used) room

/-- In every run from boot in which neither counter wraps, files are isolated. -/
theorem isolated_of_admits (ops : List RamfsOp)
    (admitted : Along Ledger.step (fun l op => l.fs.Admits op) ⟨boot, fun _ => []⟩ ops) :
    Isolated (run Ledger.step ⟨boot, fun _ => []⟩ ops) :=
  (admitted.invariant Stored (fun _ _ h ok => h.step ok) Stored.boot).isolated

/-! ## Two runs -/

/-- Four empty files in the root; their ids are 2 to 5. -/
def fourFiles : List RamfsOp :=
  [.createFile (0, 0) rootId (.letter 0), .createFile (0, 0) rootId (.letter 1),
    .createFile (0, 0) rootId (.letter 2),
    .createFile (0, 0) rootId (.letter 3)]

theorem isolated_after_overwrite : Isolated (run Ledger.step ⟨boot, fun _ => []⟩
      [.createFile (0, 0) rootId (.letter 0), .write 2 [1, 2], .write 2 [3], .unlink rootId (.letter 0)]) := by
  refine isolated_of_admits _ ⟨fun _ => by decide, ?_, ?_, trivial, trivial⟩
  · exact fun _ _ => by decide
  · exact fun _ _ => by decide

/-- The largest file there is. -/
def bigFile : Bytes := replicate maxFileSize 0

theorem writeLen_bigFile : writeLen bigFile = maxFileSize := by
  simp [writeLen, bigFile]

/-- A vnode that has nothing reserved. -/
def Blank (l : Ledger) (id : UInt64) : Prop := ∃ v, l.fs.vfs.node id = some v ∧ v.dataCap = 0

/-- The bump pointer after `k` reservations of the largest size, granted or not. -/
structure Walked (l : Ledger) (k : Nat) : Prop where
  free : l.fs.pool.free = []
  next : l.fs.pool.nextOffset = UInt64.ofNat (1 + maxFileSize * k)

theorem Pool.allocData_noFree (hn : n ≠ 0) (free : p.free = []) : p.allocData n =
      if p.nextOffset + n > UInt64.ofNat dataPoolSize then (0, { p with nextOffset := p.nextOffset + n })
      else (p.nextOffset, { p with nextOffset := p.nextOffset + n }) := by
  have noFit : p.fit n = none := by simp [fit, free]
  unfold allocData
  rw [if_neg hn, noFit]

section BigWrite

variable {s : Ramfs} {id : UInt64} {v : Vnode}

/-- One write of the largest size to a blank vnode, with nothing on the free list. -/
theorem writeFile_bigFile (hv : s.vfs.node id = some v) (cap : v.dataCap = 0)
    (free : s.pool.free = []) (started : s.pool.nextOffset ≠ 0) : (s.writeFile id bigFile).2 =
      if s.pool.nextOffset + UInt64.ofNat maxFileSize > UInt64.ofNat dataPoolSize then { s with pool :=
          { s.pool with nextOffset := s.pool.nextOffset + UInt64.ofNat maxFileSize } }
      else fill ⟨s.vfs.setDataFull id s.pool.nextOffset (UInt64.ofNat maxFileSize)
          (UInt64.ofNat maxFileSize),
        { s.pool with nextOffset := s.pool.nextOffset + UInt64.ofNat maxFileSize }⟩
        s.pool.nextOffset bigFile := by
  have result := writeFile_node hv bigFile
  rw [writeLen_bigFile, if_neg (by decide), cap, if_neg (by decide), Pool.allocData_noFree (by decide) free] at result
  rw [result]
  split
  · rfl
  · rw [if_neg started, if_neg (by decide)]

end BigWrite

/-- Each attempt moves the bump pointer by the size asked for, and a vnode that gets nothing
stays blank. -/
theorem Walked.attempt {k : Nat} (walked : Walked l k) (blank : Blank l id) (early : k + 1 < 2 ^ 48) :
    Walked (l.step (.write id bigFile)) (k + 1) ∧
      ∀ j, Blank l j → j ≠ id ∨ 3 ≤ k → Blank (l.step (.write id bigFile)) j := by
  obtain ⟨v, hv, cap⟩ := blank
  have moved : l.fs.pool.nextOffset + UInt64.ofNat maxFileSize = UInt64.ofNat (1 + maxFileSize * (k + 1)) := by
    rw [walked.next, ← ofNat_add, mul_succ, add_assoc]
  have started : l.fs.pool.nextOffset ≠ 0 := by
    rw [walked.next, ← UInt64.toNat_inj.ne, UInt64.toNat_ofNat']
    unfold maxFileSize
    simp only [UInt64.toNat_zero]
    omega
  have result := writeFile_bigFile hv cap walked.free started
  rw [moved] at result
  have fs : (l.step (.write id bigFile)).fs = (l.fs.writeFile id bigFile).2 := rfl
  split at result
  · refine ⟨⟨?_, ?_⟩, ?_⟩
    · rw [fs, result]
      exact walked.free
    · rw [fs, result]
    · rintro j ⟨w, hw, capW⟩ _
      exact ⟨w, by rw [fs, result]; exact hw, capW⟩
  next granted =>
    refine ⟨⟨?_, ?_⟩, ?_⟩
    · rw [fs, result, fill_free]
      exact walked.free
    · rw [fs, result, fill_nextOffset]
    · rintro j ⟨w, hw, capW⟩ other
      have ne : j ≠ id := by
        refine other.resolve_right ?_
        intro late
        apply granted
        rw [gt_iff_lt, lt_iff_toNat_lt, toNat_ofNat', toNat_ofNat']
        unfold maxFileSize dataPoolSize
        omega
      refine ⟨w, ?_, capW⟩
      rw [fs, result, fill_vfs, Vfs.setDataFull_node hv, if_neg ne]
      exact hw

theorem Walked.attempts {k : Nat} (n : Nat) (walked : Walked l k)
    (blank : Blank l id) (full : 3 ≤ k) (early : k + n < 2 ^ 48) :
    Walked (run Ledger.step l (replicate n (.write id bigFile))) (k + n) ∧
      Blank (run Ledger.step l (replicate n (.write id bigFile))) id := by
  induction n generalizing l k with
  | zero => exact ⟨walked, blank⟩
  | succ n ih =>
    obtain ⟨walked', blanks⟩ := walked.attempt blank (by omega)
    rw [replicate_succ, show k + (n + 1) = k + 1 + n by omega]
    exact ih walked' (blanks id blank (.inr full)) (by omega) (by omega)

/-- The attempt that makes `off + n` wrap is granted, and its extent is outside the pool. -/
theorem Walked.wraps (walked : Walked l (2 ^ 48 - 1)) (hv : l.fs.vfs.node id = some v) (cap : v.dataCap = 0) :
    ¬ Isolated (l.step (.write id bigFile)) := by
  intro isolated
  have next : l.fs.pool.nextOffset = 18446744073709486081 := walked.next
  have result := writeFile_bigFile hv cap walked.free (by rw [next]; decide)
  rw [next] at result
  have node := Vfs.setDataFull_node hv 18446744073709486081 (UInt64.ofNat maxFileSize) (UInt64.ofNat maxFileSize) id
  rw [if_pos rfl] at node
  have fs : (l.step (.write id bigFile)).fs = (l.fs.writeFile id bigFile).2 := rfl
  have inside := isolated.filesInside _ (by rw [fs, result]; exact Vfs.node_mem node)
    (by rw [(Vfs.node_id node).1]; exact (Vfs.node_id node).2)
    (show UInt64.ofNat maxFileSize ≠ 0 by decide)
  have stop : (18446744073709486081 : UInt64).toNat + (UInt64.ofNat maxFileSize).toNat ≤ dataPoolSize := inside.stop
  exact absurd stop (by decide)

/-- Four files, three of them as large as a file can be. -/
def fullPool : List RamfsOp := fourFiles ++ [.write 2 bigFile, .write 3 bigFile, .write 4 bigFile]

theorem walked_fullPool : Walked (run Ledger.step ⟨boot, fun _ => []⟩ fullPool) 3 ∧
    Blank (run Ledger.step ⟨boot, fun _ => []⟩ fullPool) 5 := by
  unfold fullPool
  rw [run_append]
  have blank : ∀ id ∈ [2, 3, 4, 5], Blank (run Ledger.step ⟨boot, fun _ => []⟩ fourFiles) id := by
    have nodes : ∀ id ∈ [2, 3, 4, 5],
        ((run Ledger.step ⟨boot, fun _ => []⟩ fourFiles).fs.vfs.node id).map Vnode.dataCap = some 0 := by
      simp only [forall_mem_cons, not_mem_nil, false_implies, implies_true, and_true]
      decide
    intro id hid
    exact Option.map_eq_some_iff.mp (nodes id hid)
  have walked : Walked (run Ledger.step ⟨boot, fun _ => []⟩ fourFiles) 0 := ⟨rfl, rfl⟩
  obtain ⟨walked, keep⟩ := walked.attempt (blank 2 (by simp)) (by decide)
  have blank : ∀ id ∈ [3, 4, 5], Blank _ id := fun id hid =>
    keep id (blank id (mem_cons_of_mem _ hid)) (.inl (by rintro rfl; simp at hid))
  obtain ⟨walked, keep⟩ := walked.attempt (blank 3 (by simp)) (by decide)
  have blank : ∀ id ∈ [4, 5], Blank _ id := fun id hid =>
    keep id (blank id (mem_cons_of_mem _ hid)) (.inl (by rintro rfl; simp at hid))
  obtain ⟨walked, keep⟩ := walked.attempt (blank 4 (by simp)) (by decide)
  exact ⟨walked, keep 5 (blank 5 (by simp)) (.inl (by decide))⟩

/-- Three files take up the pool; writes to the fourth are then refused, 2^48 - 4 times over,
until the bump pointer wraps and one is granted outside the pool. -/
theorem refused_writes_leave_the_pool : ¬ ∀ ops : List RamfsOp, Isolated (run Ledger.step ⟨boot, fun _ => []⟩ ops) := by
  intro claim
  have isolated := claim (fullPool ++ replicate (2 ^ 48 - 4) (.write 5 bigFile) ++ [.write 5 bigFile])
  rw [run_append, run_append] at isolated
  obtain ⟨walked, blank⟩ := walked_fullPool
  obtain ⟨walkedAll, v, hv, cap⟩ := walked.attempts (2 ^ 48 - 4) blank (by decide) (by decide)
  exact walkedAll.wraps hv cap isolated

end BarryOS.Fs
