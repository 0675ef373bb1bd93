import BarryOS.Compat.PeLoader

/-!
# What the tables of a file say

The section table, the relocation table and the import table as far as the loader gets: sections
up to the first header that is cut off, fixups up to the first that is not supported, imports
up to the first that is not known. Here are the sections and the fixups, and where the loader
writes for them.
-/

namespace BarryOS.Compat.Pe

open Lib Mem Emit Nat

variable (d : Bytes) (info : PeInfo)

/-- The octets of the frames allocated for the image. -/
def roomOf : Nat := pagesOf info * pageSize

def sectionAt (i : Nat) : Option Section := readSection d (info.sectionsAt + i * 40)

/-! ## The relocation table -/

/-- A block of the table, with the page it is for and its size. -/
structure Block (stop pos : Nat) (page size : UInt32) : Prop where
  inTable : pos + 8 ≤ stop
  inFile : pos + 8 ≤ d.length
  pageAt : u32At d pos = some page
  sizeAt : u32At d (pos + 4) = some size
  long : 8 ≤ size.toNat

def entryAt (pos e : Nat) : Option UInt16 := u16At d (pos + 8 + e * 2)

/-- The octets a fixup changes. -/
def fixWidth (entry : UInt16) : Option Nat :=
  let kind := entry >>> 12
  if kind = relAbsolute then some 0
  else if kind = relDir64 then some 8
  else if kind = relHighlow then some 4
  else none

/-- Where it changes them. -/
def fixRva (page : UInt32) (entry : UInt16) : UInt32 := page + (entry &&& 0x0FFF).toUInt32

def Supported (pos e : Nat) : Prop := ∃ entry n, entryAt d pos e = some entry ∧ fixWidth entry = some n

/-- Where blocks start: behind blocks all of whose entries are supported. -/
inductive BlockAt (stop start : Nat) : Nat → Prop where
  | first : BlockAt stop start start
  | next {pos : Nat} {page size : UInt32} (before : BlockAt stop start pos) (block : Block d stop pos page size)
      (all : ∀ e, e < entriesOf size → Supported d pos e) : BlockAt stop start (pos + size.toNat)

/-- Every fixup up to the first that is not supported lies inside. -/
def FixupsFit (stop start room : Nat) : Prop :=
  ∀ pos page size, BlockAt d stop start pos → Block d stop pos page size →
    ∀ e, e < entriesOf size → (∀ j, j < e → Supported d pos j) →
      ∀ entry n, entryAt d pos e = some entry → fixWidth entry = some n → n = 0 ∨ (fixRva page entry).toNat + n ≤ room

/-- The image can be moved to where it was loaded. -/
def Relocatable (base : Nat) : Prop :=
  deltaOf info base = 0 ∨ (info.relocRva ≠ 0 ∧ info.relocSize ≠ 0) ∧
    ∃ start, (rvaToOffset d info info.relocRva).result = .ok start ∧
      ∀ pos page size, BlockAt d (start + info.relocSize.toNat) start pos →
        Block d (start + info.relocSize.toNat) pos page size → ∀ e, e < entriesOf size → Supported d pos e

/-! ## Running out of fuel -/

/-- The computation ends. -/
def Ends {α : Type} (m : Loader α) : Prop := m.result ≠ .error .fuel

section Ends

variable {α β σ : Type} {m n : Loader α} {f : α → Loader β}

@[simp] theorem ends_pure (a : α) : Ends (Pure.pure a : Loader α) := by
  simp [Ends]

@[simp] theorem ends_emit (s : Store) : Ends (emit s) := by
  simp [Ends]

@[simp] theorem ends_fail (text : String) : Ends (fail text : Loader α) := by
  simp [Ends, fail]

@[simp] theorem ends_need (text : String) (o : Option α) : Ends (need text o) := by
  cases o <;> simp [Ends, need, Emit.need, Emit.pure]

@[simp] theorem ends_bind : Ends (m >>= f) ↔ Ends m ∧ ∀ a, m.result = .ok a → Ends (f a) :=
  (stepwise_avoids Halt.fuel).bind m f

@[simp] theorem ends_ite {c : Prop} [Decidable c] : Ends (if c then m else n) ↔ (c → Ends m) ∧ (¬ c → Ends n) := by
  split <;> simp_all

theorem ends_tally (turn : Nat → Loader Nat) (turns : ∀ i, Ends (turn i)) (left i count : Nat) :
    Ends (tally turn left i count) :=
  ((stepwise_avoids Halt.fuel).tally left i count).mpr fun k _ _ => turns (i + k)

theorem ends_loop {turn : σ → Loader (σ ⊕ α)} {size : σ → Nat} {fuel : Nat} {s : σ}
    (shrinks : ∀ s t, (turn s).result = .ok (.inl t) → size t < size s) (enough : size s < fuel)
    (turns : ∀ t, Ends (turn t)) : Ends (loop .fuel turn fuel s) :=
  ((stepwise_avoids Halt.fuel).loop shrinks enough).mpr fun t _ => turns t

end Ends

variable (rva : UInt32)

/-- Translating an address emits nothing and gives an offset or an error. -/
theorem rvaToOffset_of {Q : Loader Nat → Prop} (failed : ∀ text, Q (fail text)) (passed : ∀ n, Q (Pure.pure n)) :
    Q (rvaToOffset d info rva) := by
  have found (indices : List Nat) : Q (findRva d info rva indices) := by
    induction indices with
    | nil => exact failed _
    | cons i rest ih =>
      unfold findRva
      split
      · exact ih
      dsimp only
      split
      · split
        · exact failed _
        · exact passed _
      · exact ih
  unfold rvaToOffset
  split
  · exact passed _
  · exact found _

@[simp] theorem rvaToOffset_ends : Ends (rvaToOffset d info rva) := rvaToOffset_of d info rva ends_fail ends_pure

@[simp] theorem need_result {α : Type} (text : String) (o : Option α) (a : α) :
    (need text o).result = .ok a ↔ o = some a :=
  need_ok _ o a

/-! ## Stores inside -/

/-- A store within `room` octets from `base` on. -/
def Within (base room : Nat) (s : Store) : Prop := s.width = 0 ∨ base ≤ s.addr ∧ s.addr + s.width ≤ base + room

theorem within_iff (base room : Nat) (s : Store) :
    Within base room s ↔ ∀ i, i < s.width → base ≤ s.addr + i ∧ s.addr + i < base + room := by
  unfold Within
  constructor
  · intro h i inside
    omega
  · intro h
    by_cases none : s.width = 0
    · exact .inl none
    have first := h 0 (by omega)
    have last := h (s.width - 1) (by omega)
    omega

/-- Every store of a computation. -/
def AllWithin {α : Type} (base room : Nat) (m : Loader α) : Prop := ∀ s ∈ m.events, Within base room s

section Rules

variable {base room : Nat} {α β σ : Type} {m n : Loader α} {f : α → Loader β}

theorem allWithin_bind : AllWithin base room (m >>= f) ↔
    AllWithin base room m ∧ ∀ a, m.result = .ok a → AllWithin base room (f a) :=
  (stepwise_events _).bind m f

theorem allWithin_ite {c : Prop} [Decidable c] : AllWithin base room (if c then m else n) ↔
    (c → AllWithin base room m) ∧ (¬ c → AllWithin base room n) := by
  split
  next yes => simp [yes]
  next no => simp [no]

theorem allWithin_tally {turn : Nat → Loader Nat} (left count : Nat) : AllWithin base room (tally turn left 0 count) ↔
    ∀ k, k < left → (∀ j, j < k → Passes (turn j)) → AllWithin base room (turn k) := by
  refine ((stepwise_events (Within base room)).tally left 0 count).trans ?_
  simp only [zero_add, AllWithin]

theorem allWithin_loop {out : Halt} {turn : σ → Loader (σ ⊕ α)} {size : σ → Nat} {fuel : Nat} {s : σ}
    (shrinks : ∀ s t, (turn s).result = .ok (.inl t) → size t < size s) (enough : size s < fuel) :
    AllWithin base room (loop out turn fuel s) ↔ ∀ t, Visits turn s t → AllWithin base room (turn t) :=
  (stepwise_events _).loop shrinks enough

@[simp] theorem allWithin_emit (s : Store) : AllWithin base room (emit s) ↔ Within base room s := by
  simp [AllWithin]

@[simp] theorem allWithin_need (text : String) (o : Option α) : AllWithin base room (need text o) := by
  simp [AllWithin, need]

@[simp] theorem allWithin_pure (a : α) : AllWithin base room (Pure.pure a : Loader α) := by
  simp [AllWithin]

@[simp] theorem allWithin_fail (text : String) : AllWithin base room (fail text : Loader α) := by
  simp [AllWithin, fail]

@[simp] theorem allWithin_rvaToOffset (rva : UInt32) : AllWithin base room (rvaToOffset d info rva) :=
  rvaToOffset_of d info rva allWithin_fail allWithin_pure

end Rules

section Sections

variable (base room : Nat)

theorem mapSection_within (i : Nat) : AllWithin base room (mapSection d info base i) ↔
    ∀ s, sectionAt d info i = some s → s.raw d = [] ∨ s.virtualAddress.toNat + (s.raw d).length ≤ room := by
  simp [mapSection, allWithin_bind, Within, Store.width, Store.addr, sectionAt, add_assoc]

theorem mapSection_passes (i : Nat) : Passes (mapSection d info base i) ↔ (sectionAt d info i).isSome := by
  simp [mapSection, passes_bind, sectionAt, Option.isSome_iff_exists]

theorem mapSections_within : AllWithin base room (mapSections d info base) ↔
    ∀ i, i < info.sectionCount.toNat → (∀ j, j < i → (sectionAt d info j).isSome) →
      ∀ s, sectionAt d info i = some s → s.raw d = [] ∨ s.virtualAddress.toNat + (s.raw d).length ≤ room := by
  simp only [mapSections, allWithin_tally, mapSection_passes, mapSection_within]

theorem mapSections_passes : Passes (mapSections d info base) ↔
    ∀ i, i < info.sectionCount.toNat → (sectionAt d info i).isSome := by
  unfold mapSections
  simp only [tally_passes, mapSection_passes, zero_add]

theorem mapSections_ends : Ends (mapSections d info base) := by
  exact ends_tally _ (fun i => by simp [mapSection]) _ _ _

end Sections

/-! ## Fixups -/

section Fixups

variable (base room : Nat) (delta : UInt64) (page : UInt32) (entry : UInt16)

theorem fixEntry_within : AllWithin base room (fixEntry base delta page entry) ↔
    ∀ n, fixWidth entry = some n → n = 0 ∨ (fixRva page entry).toNat + n ≤ room := by
  unfold fixEntry fixWidth fixRva
  dsimp only
  split
  · simp
  split
  · simp [allWithin_bind, Within, Store.width, Store.addr, add_assoc]
  split
  · simp [allWithin_bind, Within, Store.width, Store.addr, add_assoc]
  · simp

theorem fixEntry_passes : Passes (fixEntry base delta page entry) ↔ ∃ n, fixWidth entry = some n := by
  unfold fixEntry fixWidth
  dsimp only
  split
  · simp
  split
  · simp [passes_bind]
  split
  · simp [passes_bind]
  · simp [fail]

@[simp] theorem fixEntry_ends : Ends (fixEntry base delta page entry) := by
  simp [fixEntry]

theorem fixEntryAt_within (pos e : Nat) : AllWithin base room (fixEntryAt d base delta page pos e) ↔
    ∀ entry n, entryAt d pos e = some entry → fixWidth entry = some n → n = 0 ∨
      (fixRva page entry).toNat + n ≤ room := by
  simp only [fixEntryAt, allWithin_bind, allWithin_need, need_result, fixEntry_within, true_and]
  exact forall_congr' fun entry => forall_comm

theorem fixEntryAt_passes (pos e : Nat) : Passes (fixEntryAt d base delta page pos e) ↔ Supported d pos e := by
  simp only [fixEntryAt, Supported, passes_bind, need_result, fixEntry_passes, exists_and_left]
  rfl

variable (stop : Nat)

/-- The loop goes on behind a block whose entries are all supported. -/
theorem fixBlock_next (s t : Nat × Nat) : (fixBlock d base delta stop s).result = .ok (.inl t) ↔
    ∃ page size, Block d stop s.1 page size ∧ t.1 = s.1 + size.toNat ∧
      (tally (fixEntryAt d base delta page s.1) (entriesOf size) 0 s.2).result = .ok t.2 := by
  simp only [fixBlock, ite_ok, bind_ok, need_result]
  constructor
  · rintro (⟨inside, page, pageAt, size, sizeAt, ⟨-, ⟨⟩⟩ | ⟨long, applied, fixed, ⟨⟩⟩⟩ | ⟨-, ⟨⟩⟩)
    exact ⟨page, size, ⟨inside.1, inside.2, pageAt, sizeAt, by omega⟩, rfl, fixed⟩
  · rintro ⟨page, size, block, place, fixed⟩
    have long := block.long
    refine .inl ⟨⟨block.inTable, block.inFile⟩, page, block.pageAt, size, block.sizeAt, .inr ⟨by omega, t.2, fixed, ?_⟩⟩
    rw [← place]
    rfl

theorem fixBlock_shrinks (s t : Nat × Nat) (on : (fixBlock d base delta stop s).result = .ok (.inl t)) :
    d.length - t.1 < d.length - s.1 := by
  obtain ⟨page, size, block, place, -⟩ := (fixBlock_next d base delta stop s t).mp on
  have long := block.long
  have inFile := block.inFile
  omega

theorem fixEntries_passes (page size : UInt32) (pos count : Nat) :
    Passes (tally (fixEntryAt d base delta page pos) (entriesOf size) 0 count) ↔
      ∀ e, e < entriesOf size → Supported d pos e := by
  simp only [tally_passes, zero_add, fixEntryAt_passes]

theorem visits_blockAt (start pos : Nat) :
    (∃ applied, Visits (fixBlock d base delta stop) (start, 0) (pos, applied)) ↔ BlockAt d stop start pos := by
  constructor
  · rintro ⟨applied, visited⟩
    generalize there : (pos, applied) = s at visited
    induction visited generalizing pos applied with
    | here =>
      cases there
      exact .first
    | next before on ih =>
      subst there
      obtain ⟨page, size, block, place, fixed⟩ := (fixBlock_next d base delta stop _ _).mp on
      rw [show pos = _ from place]
      exact .next (ih _ _ rfl) block ((fixEntries_passes d base delta page size _ _).mp ⟨_, fixed⟩)
  · intro h
    induction h with
    | first => exact ⟨0, .here⟩
    | @next pos page size before block all ih =>
      obtain ⟨applied, visited⟩ := ih
      obtain ⟨n, fixed⟩ := (fixEntries_passes d base delta page size pos applied).mpr all
      refine ⟨n, visited.next ?_⟩
      exact (fixBlock_next d base delta stop _ _).mpr ⟨page, size, block, rfl, fixed⟩

variable (s : Nat × Nat)

theorem fixBlock_within : AllWithin base room (fixBlock d base delta stop s) ↔
    ∀ page size, Block d stop s.1 page size → ∀ e, e < entriesOf size → (∀ j, j < e → Supported d s.1 j) →
      ∀ entry n, entryAt d s.1 e = some entry → fixWidth entry = some n →
        n = 0 ∨ (fixRva page entry).toNat + n ≤ room := by
  simp only [fixBlock, allWithin_ite, allWithin_bind, allWithin_need, allWithin_pure, allWithin_tally, need_result,
    fixEntryAt_passes, fixEntryAt_within, true_and, and_true, implies_true]
  constructor
  · intro all page size block
    have long := block.long
    exact all ⟨block.inTable, block.inFile⟩ page block.pageAt size block.sizeAt (by omega)
  · intro all inside page pageAt size sizeAt long
    exact all page size ⟨inside.1, inside.2, pageAt, sizeAt, by omega⟩

theorem fixBlock_passes : Passes (fixBlock d base delta stop s) ↔
    ∀ page size, Block d stop s.1 page size → ∀ e, e < entriesOf size → Supported d s.1 e := by
  simp only [fixBlock, passes_ite, passes_bind, passes_pure, need_result, implies_true, and_true, true_and]
  constructor
  · intro all page size block
    obtain ⟨page', pageAt, size', sizeAt, rest⟩ := all ⟨block.inTable, block.inFile⟩
    cases block.pageAt.symm.trans pageAt
    cases block.sizeAt.symm.trans sizeAt
    exact (fixEntries_passes d base delta page size s.1 s.2).mp (rest (by have := block.long; omega))
  · intro all inside
    obtain ⟨page, pageAt⟩ : ∃ page, u32At d s.1 = some page := ⟨_, if_pos (by omega)⟩
    obtain ⟨size, sizeAt⟩ : ∃ size, u32At d (s.1 + 4) = some size := ⟨_, if_pos (by omega)⟩
    refine ⟨page, pageAt, size, sizeAt, fun long => ?_⟩
    have block : Block d stop s.1 page size := ⟨inside.1, inside.2, pageAt, sizeAt, by omega⟩
    exact (fixEntries_passes d base delta page size s.1 s.2).mpr (all page size block)

theorem fixBlock_ends : Ends (fixBlock d base delta stop s) := by
  have entries (page : UInt32) := ends_tally (fixEntryAt d base delta page s.1) fun e => by simp [fixEntryAt]
  simp [fixBlock, entries]

end Fixups

/-! ## The relocation table -/

section Relocations

variable (base room : Nat)

theorem fixBlocks_size (start : Nat) : d.length - (start, 0).1 < d.length + 1 := by
  omega

theorem fixBlocks_within (delta : UInt64) (stop start : Nat) :
    AllWithin base room (loop Halt.fuel (fixBlock d base delta stop) (d.length + 1) (start, 0)) ↔
      FixupsFit d stop start room := by
  rw [allWithin_loop (fixBlock_shrinks d base delta stop) (fixBlocks_size d start)]
  simp only [fixBlock_within, FixupsFit, ← visits_blockAt d base delta]
  exact ⟨fun all pos page size ⟨n, visited⟩ => all (pos, n) visited page size,
    fun all s visited page size => all s.1 page size ⟨s.2, visited⟩⟩

theorem fixBlocks_passes (delta : UInt64) (stop start : Nat) :
    Passes (loop Halt.fuel (fixBlock d base delta stop) (d.length + 1) (start, 0)) ↔
      ∀ pos page size, BlockAt d stop start pos → Block d stop pos page size →
        ∀ e, e < entriesOf size → Supported d pos e := by
  rw [stepwise_passes.loop (fixBlock_shrinks d base delta stop) (fixBlocks_size d start)]
  simp only [fixBlock_passes, ← visits_blockAt d base delta]
  exact ⟨fun all pos page size ⟨n, visited⟩ => all (pos, n) visited page size,
    fun all s visited page size => all s.1 page size ⟨s.2, visited⟩⟩

theorem applyRelocations_within : AllWithin base room (applyRelocations d info base) ↔
    (deltaOf info base ≠ 0 → info.relocRva ≠ 0 → info.relocSize ≠ 0 →
      ∀ start, (rvaToOffset d info info.relocRva).result = .ok start →
        FixupsFit d (start + info.relocSize.toNat) start room) := by
  simp only [applyRelocations, allWithin_ite, allWithin_bind, allWithin_pure, allWithin_fail, allWithin_rvaToOffset,
    fixBlocks_within, not_or, true_and, implies_true]
  constructor
  · intro all moved rva size
    exact all ⟨rva, size⟩ moved
  · intro all present moved
    exact all moved present.1 present.2

theorem applyRelocations_passes : Passes (applyRelocations d info base) ↔ Relocatable d info base := by
  simp only [applyRelocations, Relocatable, passes_ite, passes_bind, fixBlocks_passes]
  by_cases still : deltaOf info base = 0
  · simp [still]
  by_cases present : info.relocRva ≠ 0 ∧ info.relocSize ≠ 0
  · simp [still, present]
  · have absent : info.relocRva = 0 ∨ info.relocSize = 0 := by
      rwa [← not_or, not_not] at present
    simp [present, absent, fail]

theorem applyRelocations_ends : Ends (applyRelocations d info base) := by
  have blocks (stop start : Nat) :=
    ends_loop (fixBlock_shrinks d base (deltaOf info base) stop) (fixBlocks_size d start) (fixBlock_ends d base _ stop)
  simp [applyRelocations, blocks]

end Relocations

end BarryOS.Compat.Pe
