import BarryOS.Fs.RamfsIsolation

/-!
# Where the pool's space is

Below the bump pointer lie the reserved byte, the extents of live vnodes, the free blocks and what
`free_data` dropped because its list was full; `bytes_free` is the rest. That holds until a request
is refused: `alloc_data` moves the bump pointer before it looks at the end of the pool.
-/

namespace BarryOS.Fs

open Lib Ramfs List

/-! ## Sums -/

/-- What a slot holds of the pool: offset and capacity. -/
def Vnode.holding (v : Vnode) : Option (UInt64 × UInt64) :=
  if v.id = 0 then none else some (v.dataOffset, v.dataCap)

namespace Vfs

def holdings (t : Vfs) : List (UInt64 × UInt64) := t.vnodes.filterMap Vnode.holding

variable (t : Vfs)

theorem holdings_setSlot {i : Nat} (inside : i < t.vnodes.length) (v : Vnode) :
    ∃ others, t.holdings.Perm ((t.vnodeAt i).holding.toList ++ others) ∧
      (t.setSlot i v).holdings.Perm (v.holding.toList ++ others) := by
  have split : ∀ (w : Vnode) (l : List Vnode),
      (w :: l).filterMap Vnode.holding = w.holding.toList ++ l.filterMap Vnode.holding := by
    intro w l
    cases held : w.holding <;> simp [held]
  have here : t.vnodeAt i = t.vnodes[i] := by simp [vnodeAt, inside]
  refine ⟨(t.vnodes.eraseIdx i).filterMap Vnode.holding, ?_, ?_⟩
  · rw [here, ← split]
    exact (getElem_cons_eraseIdx_perm inside).symm.filterMap _
  · rw [← split]
    exact (set_perm inside v).filterMap Vnode.holding

theorem holdings_modify {t : Vfs} {id : UInt64} {v : Vnode} (hv : t.node id = some v) {f : Vnode → Vnode}
    (keeps : (f v).id = v.id) : ∃ others, t.holdings.Perm ((v.dataOffset, v.dataCap) :: others) ∧
      (t.modify id f).holdings.Perm (((f v).dataOffset, (f v).dataCap) :: others) := by
  obtain ⟨i, slot, here⟩ := findSlot_of_node hv
  obtain ⟨_, get, -⟩ := slotOf_some (findSlot_some slot).2
  obtain ⟨others, before, after⟩ := t.holdings_setSlot (List.getElem?_eq_some_iff.mp get).1 (f (t.vnodeAt i))
  have used : v.id ≠ 0 := by rw [(node_id hv).1]; exact (node_id hv).2
  refine ⟨others, ?_, ?_⟩
  · simpa [here, Vnode.holding, used] using before
  · simpa [modify, slot, here, Vnode.holding, keeps, used] using after

theorem holdings_same (id : UInt64) {f : Vnode → Vnode}
    (keeps : ∀ v, (f v).id = v.id ∧ (f v).dataOffset = v.dataOffset ∧ (f v).dataCap = v.dataCap) :
    (t.modify id f).holdings.Perm t.holdings := by
  cases hv : t.node id with
  | none =>
    rw [modify, findSlot_none_of_node hv]
  | some v =>
    obtain ⟨others, before, after⟩ := holdings_modify hv (f := f) (keeps v).1
    rw [(keeps v).2.1, (keeps v).2.2] at after
    exact after.trans before.symm

theorem holdings_createNode (ids : UInt32 × UInt32) (t : Vfs) (parentId : UInt64) (name : Str) (vtype : VnodeType) :
    (createNode ids t parentId name vtype).2.holdings.Perm t.holdings ∨
      (createNode ids t parentId name vtype).2.holdings.Perm ((0, 0) :: t.holdings) := by
  unfold createNode
  split
  · exact .inl (List.Perm.refl _)
  dsimp only
  split
  · exact .inl (List.Perm.refl _)
  rename_i slot found
  obtain ⟨w, get, free, -⟩ := slotOf_some (show slotOf Vnode.id 0 t.vnodes = some slot from found)
  obtain ⟨inside, here⟩ := List.getElem?_eq_some_iff.mp get
  obtain ⟨others, before, after⟩ :=
    holdings_setSlot { t with nextId := t.nextId + 1 } inside (newNode ids t.nextId parentId name vtype)
  have empty : (Vnode.holding (vnodeAt { t with nextId := t.nextId + 1 } slot)).toList = [] := by
    simp [vnodeAt, inside, here, Vnode.holding, free]
  rw [empty] at before
  have all : Vfs.holdings _ |>.Perm ((newNode ids t.nextId parentId name vtype).holding.toList ++ t.holdings) :=
    after.trans (before.symm.append_left _)
  have linked := fun u : Vfs => u.holdings_same parentId (f := fun p =>
    if p.childIds.length < maxChildren then { p with childIds := p.childIds ++ [t.nextId] } else p)
    fun v => by split <;> exact ⟨rfl, rfl, rfl⟩
  -- an id of 0 would leave the slot free
  by_cases none : t.nextId = 0
  · exact .inl ((linked _).trans (by simpa [Vnode.holding, newNode, Vnode.setName, none] using all))
  · exact .inr ((linked _).trans (by simpa [Vnode.holding, newNode, Vnode.setName, none] using all))

theorem holdings_unlink (parentId : UInt64) (name : Str) :
    ((t.unlink parentId name).1 = false ∧ (t.unlink parentId name).2 = t) ∨
      ((t.unlink parentId name).1 = true ∧ t.holdings.Perm
        ((t.getDataOffset (t.lookup parentId name), t.getCapacity (t.lookup parentId name)) ::
          (t.unlink parentId name).2.holdings)) := by
  unfold unlink
  dsimp only
  split
  · exact .inl ⟨rfl, rfl⟩
  rename_i found
  obtain ⟨p, c, hp, listed, hc, -⟩ := lookup_found found
  generalize t.lookup parentId name = id at *
  split
  · exact .inl ⟨rfl, rfl⟩
  right
  have unlisted : t.unlinkChild parentId id =
      (true, t.modify parentId fun p => { p with childIds := p.childIds.erase id }) := by
    simp [unlinkChild, hp, listed]
  rw [unlisted]
  generalize after : (t.modify parentId fun p => { p with childIds := p.childIds.erase id }) = u
  have same : u.holdings.Perm t.holdings := by
    rw [← after]
    exact t.holdings_same parentId fun v => ⟨rfl, rfl, rfl⟩
  obtain ⟨v, hv, off, cap⟩ : ∃ v, u.node id = some v ∧ v.dataOffset = c.dataOffset ∧ v.dataCap = c.dataCap := by
    rw [← after, node_modify t parentId (fun p => { p with childIds := p.childIds.erase id }) fun _ => rfl]
    split
    next own =>
      rw [← own, hc]
      exact ⟨_, rfl, rfl, rfl⟩
    · exact ⟨c, hc, rfl, rfl⟩
  obtain ⟨i, slot, here⟩ := findSlot_of_node hv
  obtain ⟨_, get, -⟩ := slotOf_some (findSlot_some slot).2
  obtain ⟨others, before, behind⟩ := u.holdings_setSlot (List.getElem?_eq_some_iff.mp get).1 {}
  have used : v.id ≠ 0 := by rw [(node_id hv).1]; exact (node_id hv).2
  rw [slot]
  refine ⟨rfl, same.symm.trans (before.trans ?_)⟩
  have gone : (Vnode.holding {}).toList = [] := rfl
  simpa [here, Vnode.holding, used, off, cap, getDataOffset, getCapacity, hc] using behind.symm

end Vfs

/-- The octets of some blocks. -/
def sizes (blocks : List FreeBlock) : Nat := (blocks.map fun b => b.size.toNat).sum

@[simp] theorem sizes_cons (b : FreeBlock) (blocks : List FreeBlock) :
    sizes (b :: blocks) = b.size.toNat + sizes blocks := by
  simp [sizes]

theorem sizes_perm {l m : List FreeBlock} (perm : l.Perm m) : sizes l = sizes m := (perm.map _).sum_nat

def caps (holdings : List (UInt64 × UInt64)) : Nat := (holdings.map fun h => h.2.toNat).sum

@[simp] theorem caps_cons (h : UInt64 × UInt64) (holdings : List (UInt64 × UInt64)) :
    caps (h :: holdings) = h.2.toNat + caps holdings := by
  simp [caps]

theorem caps_perm {l m : List (UInt64 × UInt64)} (perm : l.Perm m) : caps l = caps m := (perm.map _).sum_nat

/-- What live vnodes have reserved. -/
def Vfs.reserved (t : Vfs) : Nat := caps t.holdings

/-! ## The allocator -/

variable {p : Pool}

namespace Pool

/-- What `free_data` drops. -/
def leaks (p : Pool) (off size : UInt64) : Nat :=
  if off = 0 ∨ size = 0 then 0 else if p.free.length ≥ freeMax then size.toNat else 0

/-- Free blocks lie in the pool, and the bump pointer is not past its end. -/
structure Inside (p : Pool) : Prop where
  next : p.nextOffset.toNat ≤ dataPoolSize
  blocks : ∀ b ∈ p.free, InPool b.extent

theorem foldl_sizes (blocks : List FreeBlock) (start : UInt64) (fits : start.toNat + sizes blocks < 2 ^ 64) :
    (blocks.foldl (fun total b => total + b.size) start).toNat = start.toNat + sizes blocks := by
  induction blocks generalizing start with
  | nil => rfl
  | cons b blocks ih =>
    rw [sizes_cons] at fits ⊢
    have one : (start + b.size).toNat = start.toNat + b.size.toNat := by
      rw [UInt64.toNat_add]
      omega
    rw [foldl_cons, ih _ (by omega), one, Nat.add_assoc]

/-- Nothing wraps while the free blocks lie below the bump pointer. -/
theorem Inside.bytesFree (h : Inside p) (below : sizes p.free ≤ p.nextOffset.toNat) :
    p.bytesFree.toNat = dataPoolSize - p.nextOffset.toNat + sizes p.free := by
  have next := h.next
  have size : (UInt64.ofNat dataPoolSize).toNat = dataPoolSize := by decide
  have start : (UInt64.ofNat dataPoolSize - p.nextOffset).toNat = dataPoolSize - p.nextOffset.toNat := by
    rw [UInt64.toNat_sub_of_le _ _ (UInt64.le_iff_toNat_le.mpr (by rw [size]; exact next)), size]
  unfold Pool.bytesFree
  rw [foldl_sizes, start]
  rw [start]
  simp only [dataPoolSize] at next ⊢
  omega

/-- There is a free block that is large enough, or room behind the bump pointer. -/
def HasRoom (p : Pool) (n : UInt64) : Prop :=
  (∃ b ∈ p.free, n ≤ b.size) ∨ p.nextOffset.toNat + n.toNat ≤ dataPoolSize

/-- A granted request takes its space from a free block or moves the bump pointer over it. -/
structure Granted (p q : Pool) (off n : UInt64) : Prop where
  inside : Inside q
  bytes : q.bytes = p.bytes
  mine : InPool ⟨off.toNat, n.toNat⟩
  space : sizes q.free + p.nextOffset.toNat + n.toNat = sizes p.free + q.nextOffset.toNat

theorem Inside.granted (h : Inside p) (started : 1 ≤ p.nextOffset.toNat) {n : UInt64} (hn : n ≠ 0)
    (room : p.HasRoom n) : Granted p (p.allocData n).2 (p.allocData n).1 n := by
  have positive := toNat_pos hn
  cases fits : p.fit n with
  | some i =>
    obtain ⟨b, others, left, free, before, after, result, -, size, rest⟩ := allocData_carves h.blocks hn fits
    obtain ⟨-, start, stop⟩ := h.blocks b (before.mem_iff.mpr mem_cons_self)
    simp only [FreeBlock.extent, dataPoolSize] at start stop
    rw [result]
    refine ⟨⟨h.next, ?_⟩, rfl, ⟨positive, start, by simp only [dataPoolSize]; omega⟩, ?_⟩
    · intro c hc
      rcases mem_append.mp (after.mem_iff.mp hc) with back | other
      · obtain ⟨some', off, size⟩ := rest c back
        refine ⟨some', ?_, ?_⟩
        · simp only [FreeBlock.extent]
          omega
        · simp only [FreeBlock.extent, dataPoolSize]
          omega
      · exact h.blocks c (before.mem_iff.mpr (mem_cons_of_mem _ other))
    · have total : sizes (left ++ others) = (left.map fun r => r.size.toNat).sum + sizes others := by
        simp [sizes]
      dsimp only
      rw [sizes_perm before, sizes_perm after, sizes_cons]
      omega
  | none =>
    have stop : p.nextOffset.toNat + n.toNat ≤ dataPoolSize := by
      refine room.resolve_left ?_
      rintro ⟨b, hb, enough⟩
      have := List.findIdx?_eq_none_iff.mp fits b hb
      simp [enough] at this
    have next : (p.nextOffset + n).toNat = p.nextOffset.toNat + n.toNat := by
      rw [UInt64.toNat_add]
      simp only [dataPoolSize] at stop
      omega
    have size : (UInt64.ofNat dataPoolSize).toNat = dataPoolSize := by decide
    unfold allocData
    rw [if_neg hn, fits]
    rw [if_neg (by rw [gt_iff_lt, UInt64.lt_iff_toNat_lt]; omega)]
    refine ⟨⟨by simpa only [next] using stop, h.blocks⟩, rfl, ⟨positive, started, stop⟩, ?_⟩
    rw [next, Nat.add_assoc]

/-- A request for which there is no room is refused, and moves the bump pointer. -/
theorem refused_of_no_room {n : UInt64} (hn : n ≠ 0) (small : n.toNat ≤ maxFileSize)
    (next : p.nextOffset.toNat ≤ dataPoolSize) (none : ¬ p.HasRoom n) :
    p.allocData n = (0, { p with nextOffset := p.nextOffset + n }) := by
  obtain ⟨noBlock, noBump⟩ := not_or.mp none
  have noFit : p.fit n = Option.none := by
    refine List.findIdx?_eq_none_iff.mpr fun b hb => ?_
    simpa using fun enough => noBlock ⟨b, hb, enough⟩
  have moved : (p.nextOffset + n).toNat = p.nextOffset.toNat + n.toNat := by
    rw [UInt64.toNat_add]
    simp only [dataPoolSize, maxFileSize] at next small
    omega
  have size : (UInt64.ofNat dataPoolSize).toNat = dataPoolSize := by decide
  unfold allocData
  rw [if_neg hn, noFit]
  rw [if_pos (by rw [gt_iff_lt, UInt64.lt_iff_toNat_lt]; omega)]

theorem freeData_spaces (h : Inside p) {off size : UInt64} (mine : InPool ⟨off.toNat, size.toNat⟩) :
    Inside (p.freeData off size) ∧ (p.freeData off size).nextOffset = p.nextOffset ∧
      sizes (p.freeData off size).free + p.leaks off size = sizes p.free + size.toNat := by
  have some' : ¬ (off = 0 ∨ size = 0) := by
    rintro (rfl | rfl)
    · exact absurd mine.start (by simp)
    · exact absurd mine.nonempty (by simp)
  unfold freeData leaks
  rw [if_neg some']
  split
  · exact ⟨h, rfl, rfl⟩
  refine ⟨⟨h.next, ?_⟩, rfl, ?_⟩
  · intro b hb
    rcases mem_append.mp hb with hb | hb
    · exact h.blocks b hb
    rw [mem_singleton.mp hb]
    exact mine
  · simp [sizes]

end Pool

/-! ## The books -/

/-- The state, and what `free_data` has dropped so far. -/
structure Account where
  fs : Ramfs
  leaked : Nat := 0

/-- What a call drops. -/
def Ramfs.leaks (s : Ramfs) : RamfsOp → Nat
  | .write id data =>
    let len := UInt64.ofNat (writeLen data)
    let off := s.vfs.getDataOffset id
    let cap := s.vfs.getCapacity id
    if len = 0 then s.pool.leaks off cap
    else if cap ≥ len then 0
    else
      let r := s.pool.allocData len
      if r.1 = 0 then 0 else r.2.leaks off cap
  | .unlink parent name =>
    let id := s.vfs.lookup parent name
    if (s.vfs.unlink parent name).1 then s.pool.leaks (s.vfs.getDataOffset id) (s.vfs.getCapacity id) else 0
  | _ => 0

/-- A write for which there is no space. -/
def Ramfs.refuses (s : Ramfs) : RamfsOp → Prop
  | .write id data => s.grows id data ∧ (s.pool.allocData (UInt64.ofNat (writeLen data))).1 = 0
  | _ => False

/-- The condition of one call: what a write asks for is there. -/
def Ramfs.HasRoom (s : Ramfs) : RamfsOp → Prop
  | .write id data => s.grows id data → s.pool.HasRoom (UInt64.ofNat (writeLen data))
  | _ => True

variable {a : Account}

namespace Account

def step (a : Account) (op : RamfsOp) : Account := ⟨a.fs.step op, a.leaked + a.fs.leaks op⟩

/-- `bytes_free` is what is held by no live file, no leaked block and not reserved. -/
def Exact (a : Account) : Prop := a.fs.pool.bytesFree.toNat + a.fs.vfs.reserved + a.leaked + 1 = dataPoolSize

/-- A refused write leaves the allocator as it was. -/
def Unmoved (a : Account) (op : RamfsOp) : Prop := a.fs.refuses op → (a.step op).fs.pool = a.fs.pool

/-- The books are right, and everything lies in the pool. -/
structure Sound (a : Account) : Prop where
  inside : a.fs.pool.Inside
  files : ∀ h ∈ a.fs.vfs.holdings, h.2 ≠ 0 → InPool ⟨h.1.toNat, h.2.toNat⟩
  sum : sizes a.fs.pool.free + a.fs.vfs.reserved + a.leaked + 1 = a.fs.pool.nextOffset.toNat

theorem Sound.exact (h : Sound a) : a.Exact := by
  have sum := h.sum
  have next := h.inside.next
  unfold Exact
  rw [h.inside.bytesFree (by omega)]
  omega

theorem Sound.boot : Sound ⟨boot, 0⟩ := by
  have none : Ramfs.boot.vfs.holdings = [(0, 0)] := by decide
  refine ⟨⟨by decide, by simp [Ramfs.boot]⟩, ?_, ?_⟩
  · rw [none]
    simp
  · show sizes [] + caps Ramfs.boot.vfs.holdings + 0 + 1 = 1
    rfl

/-- What a vnode holds is released, or nothing if it holds nothing. -/
theorem release_spaces (h : p.Inside) {off cap : UInt64} (mine : cap ≠ 0 → InPool ⟨off.toNat, cap.toNat⟩) :
    Pool.Inside (if cap > 0 then p.freeData off cap else p) ∧
      (if cap > 0 then p.freeData off cap else p).nextOffset = p.nextOffset ∧
      sizes (if cap > 0 then p.freeData off cap else p).free + p.leaks off cap = sizes p.free + cap.toNat := by
  split
  next some' => exact Pool.freeData_spaces h (mine (UInt64.pos_iff_ne_zero.mp some'))
  rename_i none
  have zero : cap = 0 := Classical.not_not.mp (mt UInt64.pos_iff_ne_zero.mpr none)
  refine ⟨h, rfl, ?_⟩
  simp [Pool.leaks, zero]

theorem Sound.of_perm (h : Sound a) {t : Vfs} (same : t.holdings.Perm a.fs.vfs.holdings) :
    Sound ⟨{ a.fs with vfs := t }, a.leaked⟩ := by
  refine ⟨h.inside, fun held member => h.files held (same.mem_iff.mp member), ?_⟩
  have sum := h.sum
  unfold Vfs.reserved at sum ⊢
  rwa [caps_perm same]

theorem Sound.create (h : Sound a) (ids : UInt32 × UInt32) (parent : UInt64) (name : Str)
    (vtype : VnodeType) : Sound ⟨{ a.fs with vfs := (Vfs.createNode ids a.fs.vfs parent name vtype).2 }, a.leaked⟩ := by
  rcases Vfs.holdings_createNode ids a.fs.vfs parent name vtype with same | one
  · exact h.of_perm same
  refine ⟨h.inside, ?_, ?_⟩
  · intro held member some'
    rcases mem_cons.mp (one.mem_iff.mp member) with rfl | old
    · exact absurd rfl some'
    · exact h.files held old some'
  · have sum := h.sum
    unfold Vfs.reserved at sum ⊢
    rw [caps_perm one]
    simpa using sum

theorem Sound.unlink (h : Sound a) (parent : UInt64) (name : Str) : Sound (a.step (.unlink parent name)) := by
  have sum := h.sum
  unfold step Ramfs.step Ramfs.unlink Ramfs.leaks
  dsimp only
  rcases a.fs.vfs.holdings_unlink parent name with ⟨no, same⟩ | ⟨yes, perm⟩
  · rw [no, same]
    split <;> exact h
  have found : a.fs.vfs.lookup parent name ≠ 0 := by
    intro none
    simp [Vfs.unlink, none] at yes
  simp only [found, yes, Bool.not_true, Bool.false_eq_true, if_false, if_true]
  obtain ⟨inside, next, space⟩ := release_spaces h.inside fun some' =>
    h.files _ (perm.mem_iff.mpr mem_cons_self) some'
  refine ⟨inside, fun held member => h.files held (perm.mem_iff.mpr (mem_cons_of_mem _ member)), ?_⟩
  unfold Vfs.reserved at sum ⊢
  rw [caps_perm perm, caps_cons] at sum
  rw [next]
  dsimp only at space sum ⊢
  omega

theorem Sound.rename (h : Sound a) (parent : UInt64) (old new : Str) : Sound (a.step (.rename parent old new)) := by
  have same : (a.fs.vfs.rename parent old new).2.holdings.Perm a.fs.vfs.holdings := by
    unfold Vfs.rename
    split
    · exact List.Perm.refl _
    dsimp only
    split
    · exact List.Perm.refl _
    split
    · exact List.Perm.refl _
    split
    next slot found =>
      have := a.fs.vfs.holdings_same (a.fs.vfs.lookup parent old) (f := fun v => v.setName new) fun _ => ⟨rfl, rfl, rfl⟩
      rwa [Vfs.modify, found] at this
    · exact List.Perm.refl _
  exact h.of_perm same

theorem Sound.write (h : Sound a) (id : UInt64) (data : Bytes) (room : a.fs.HasRoom (.write id data)) :
    Sound (a.step (.write id data)) := by
  have sum := h.sum
  unfold step Ramfs.step Ramfs.leaks
  dsimp only
  cases hv : a.fs.vfs.node id with
  | none =>
    have off : a.fs.vfs.getDataOffset id = 0 := by simp [Vfs.getDataOffset, hv]
    have cap : a.fs.vfs.getCapacity id = 0 := by simp [Vfs.getCapacity, hv]
    have nothing : ∀ p : Pool, p.leaks 0 0 = 0 := fun p => by simp [Pool.leaks]
    rw [writeFile_absent hv, off, cap]
    simp only [nothing, ite_self]
    exact h
  | some v =>
    have grows : v.dataCap < UInt64.ofNat (writeLen data) → a.fs.grows id data := fun less => ⟨v, hv, less⟩
    rw [writeFile_node hv, Vfs.getDataOffset_eq hv, Vfs.getCapacity_eq hv]
    replace room : a.fs.grows id data → a.fs.pool.HasRoom (UInt64.ofNat (writeLen data)) := room
    generalize UInt64.ofNat (writeLen data) = len at *
    have full := fun o n c : UInt64 => Vfs.holdings_modify hv
      (f := fun v => { v with dataOffset := o, size := n, dataCap := c }) rfl
    by_cases empty : len = 0
    · rw [if_pos empty, if_pos empty]
      obtain ⟨others, before, after⟩ := full 0 0 0
      obtain ⟨inside, next, space⟩ := release_spaces h.inside fun some' =>
        h.files _ (before.mem_iff.mpr mem_cons_self) some'
      refine ⟨inside, ?_, ?_⟩
      · intro held member some'
        rcases mem_cons.mp (after.mem_iff.mp member) with rfl | old
        · exact absurd rfl some'
        · exact h.files held (before.mem_iff.mpr (mem_cons_of_mem _ old)) some'
      · unfold Vfs.reserved Vfs.setDataFull at *
        rw [caps_perm before, caps_cons] at sum
        rw [caps_perm after, caps_cons]
        dsimp only at space next sum ⊢
        rw [next, UInt64.toNat_zero]
        omega
    · rw [if_neg empty, if_neg empty]
      by_cases fits : v.dataCap ≥ len
      · rw [if_pos fits, if_pos fits]
        obtain ⟨others, before, after⟩ := Vfs.holdings_modify hv
          (f := fun w => { w with dataOffset := v.dataOffset, size := len }) rfl
        have kept := h.of_perm (after.trans before.symm)
        exact ⟨⟨kept.inside.next, kept.inside.blocks⟩, kept.files, kept.sum⟩
      · rw [if_neg fits, if_neg fits]
        have granted := h.inside.granted (by omega) empty (room (grows (UInt64.not_le.mp fits)))
        have notZero : (a.fs.pool.allocData len).1 ≠ 0 := by
          intro zero
          have := granted.mine.start
          simp [zero] at this
        rw [if_neg notZero, if_neg notZero]
        obtain ⟨others, before, after⟩ := full (a.fs.pool.allocData len).1 len len
        obtain ⟨inside, next, space⟩ := release_spaces granted.inside fun some' =>
          h.files _ (before.mem_iff.mpr mem_cons_self) some'
        refine ⟨⟨inside.next, inside.blocks⟩, ?_, ?_⟩
        · intro held member some'
          rcases mem_cons.mp (after.mem_iff.mp member) with rfl | old
          · exact granted.mine
          · exact h.files held (before.mem_iff.mpr (mem_cons_of_mem _ old)) some'
        · have moved := granted.space
          unfold Vfs.reserved at *
          simp only [fill_vfs, fill_free, fill_nextOffset, Vfs.setDataFull]
          rw [caps_perm before, caps_cons] at sum
          rw [caps_perm after, caps_cons]
          dsimp only at space next sum moved ⊢
          rw [next]
          omega

variable {op : RamfsOp}

theorem Sound.step (h : Sound a) (room : a.fs.HasRoom op) : Sound (a.step op) := by
  cases op with
  | createFile ids parent name => exact h.create ids parent name .file
  | createDir ids parent name => exact h.create ids parent name .dir
  | write id data => exact h.write id data room
  | rename parent old new => exact h.rename parent old new
  | unlink parent name => exact h.unlink parent name

/-- A write that asks for more than there is moves the bump pointer. -/
theorem Sound.hasRoom (h : Sound a) (unmoved : a.Unmoved op) : a.fs.HasRoom op := by
  cases op with
  | write id data =>
    rintro ⟨v, hv, less⟩
    by_contra none
    have small : (UInt64.ofNat (writeLen data)).toNat ≤ maxFileSize := by
      rw [writeLen_toNat]
      exact Nat.min_le_right _ _
    have result := writeFile_node hv data
    have asked : a.fs.grows id data := ⟨v, hv, less⟩
    replace unmoved : a.fs.grows id data ∧ (a.fs.pool.allocData (UInt64.ofNat (writeLen data))).1 = 0 →
      (a.step (.write id data)).fs.pool = a.fs.pool := unmoved
    generalize UInt64.ofNat (writeLen data) = len at *
    have some' : len ≠ 0 := by
      rintro rfl
      exact UInt64.not_lt_zero less
    have refused := Pool.refused_of_no_room some' small h.inside.next none
    rw [if_neg some', if_neg (UInt64.not_le.mpr less), refused] at result
    have same := congrArg Pool.nextOffset (unmoved ⟨asked, by rw [refused]⟩)
    have moved : (a.step (.write id data)).fs.pool.nextOffset = a.fs.pool.nextOffset + len := by
      show (a.fs.writeFile id data).2.pool.nextOffset = _
      rw [result]
      rfl
    rw [moved] at same
    exact some' (by simpa using same)
  | _ => trivial

theorem Sound.not_refuses (h : Sound a) (room : a.fs.HasRoom op) : ¬ a.fs.refuses op := by
  cases op with
  | write id data =>
    rintro ⟨asked, zero⟩
    have granted := room asked
    obtain ⟨v, -, less⟩ := asked
    have some' : UInt64.ofNat (writeLen data) ≠ 0 := by
      intro none
      rw [none] at less
      exact UInt64.not_lt_zero less
    have start := (h.inside.granted (by have := h.sum; omega) some' granted).mine.start
    simp [zero] at start
  | _ => exact not_false

/-- The books stay right and refused writes do no harm, exactly in the runs in which no write is refused. -/
theorem exact_iff_hasRoom (ops : List RamfsOp) :
    (Throughout step Exact ⟨boot, 0⟩ ops ∧ Along step Unmoved ⟨boot, 0⟩ ops) ↔
      Along step (fun a op => a.fs.HasRoom op) ⟨boot, 0⟩ ops := by
  suffices all : ∀ a, Sound a → ((Throughout step Exact a ops ∧ Along step Unmoved a ops) ↔
      Along step (fun a op => a.fs.HasRoom op) a ops) from all _ Sound.boot
  induction ops with
  | nil => exact fun a h => iff_of_true ⟨h.exact, trivial⟩ trivial
  | cons op ops ih =>
    intro a h
    constructor
    · rintro ⟨⟨-, exact'⟩, unmoved, rest⟩
      have room := h.hasRoom unmoved
      exact ⟨room, (ih _ (h.step room)).mp ⟨exact', rest⟩⟩
    · rintro ⟨room, rest⟩
      obtain ⟨exact', unmoved⟩ := (ih _ (h.step room)).mpr rest
      exact ⟨⟨h.exact, exact'⟩, fun refused => absurd refused (h.not_refuses room), unmoved⟩

/-- A write that the pool has no space for makes `bytes_free` wrap. -/
theorem refused_write_wraps : ¬ ∀ ops : List RamfsOp,
    Throughout step Exact ⟨Ramfs.boot, 0⟩ ops ∧ Along step Unmoved ⟨Ramfs.boot, 0⟩ ops := by
  intro always
  have exact' := (always (fullPool ++ [.write 5 bigFile])).1.last
  obtain ⟨walked, -⟩ := (walked_fullPool.1).attempt walked_fullPool.2 (by decide)
  have books : ∀ ops (a : Account), (run step a ops).fs = run Ramfs.step a.fs ops :=
    fun ops a => run_part (fun _ _ => rfl) a ops
  have ledger : ∀ ops (l : Ledger), (run Ledger.step l ops).fs = run Ramfs.step l.fs ops :=
    fun ops l => run_part (fun _ _ => rfl) l ops
  have fs : ∀ ops, (run step ⟨Ramfs.boot, 0⟩ ops).fs = (run Ledger.step ⟨Ramfs.boot, fun _ => []⟩ ops).fs :=
    fun ops => by rw [books, ledger]
  unfold Exact at exact'
  rw [fs, run_append, run_cons, run_nil] at exact'
  generalize run Ledger.step ⟨Ramfs.boot, fun _ => []⟩ fullPool = l at exact' walked
  have free : (l.step (.write 5 bigFile)).fs.pool.bytesFree = 0xFFFFFFFFFFFFFFFF := by
    unfold Pool.bytesFree
    rw [walked.free, walked.next]
    decide
  rw [free] at exact'
  have large : (0xFFFFFFFFFFFFFFFF : UInt64).toNat > dataPoolSize := by decide
  omega

end Account

end BarryOS.Fs
