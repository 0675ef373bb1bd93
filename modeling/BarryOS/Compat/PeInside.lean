import BarryOS.Compat.PeTables

/-!
# Where the loader writes

Headers, sections, fixups and import slots go to the addresses their fields name, and nobody
asks whether those lie in the image; nor does anybody ask about the entry point. `Fits` says of a
file that they do.
-/

namespace BarryOS.Compat.Pe

open Lib Mem Emit Nat

variable (d : Bytes) (info : PeInfo)

/-! ## The import table -/

/-- A descriptor: where its addresses go and where its lookup table is. -/
structure Descriptor (pos : Nat) (first : UInt32) (lt : Nat) : Prop where
  nameAt : ∃ name, u32At d (pos + 12) = some name ∧ ¬ (name = 0 ∧ first = 0) ∧
    ∃ text, (rvaToOffset d info name).result = .ok text
  firstAt : u32At d (pos + 16) = some first
  lookup : (rvaToOffset d info (if (u32At d pos).getD 0 ≠ 0 then (u32At d pos).getD 0 else first)).result = .ok lt

/-- Entry number `i` of a lookup table stands for a stub. -/
def Resolves (stubs : Nat → UInt64) (lt i : Nat) : Prop :=
  ∃ entry target, thunkAt d info (lt + i * ptrSize info) = some entry ∧ entry ≠ 0 ∧
    (resolveThunk stubs d info entry).result = .ok target

/-- Where descriptors start: behind descriptors all of whose entries are known. -/
inductive DescriptorAt (stubs : Nat → UInt64) (start : Nat) : Nat → Prop where
  | first : DescriptorAt stubs start start
  | next {pos : Nat} {first : UInt32} {lt n : Nat} (before : DescriptorAt stubs start pos)
      (descriptor : Descriptor d info pos first lt) (all : ∀ i, i < n → Resolves d info stubs lt i)
      (last : thunkAt d info (lt + n * ptrSize info) = some 0) : DescriptorAt stubs start (pos + 20)

/-- Every slot up to the first import that is not known lies inside. -/
def SlotsFit (stubs : Nat → UInt64) (start room : Nat) : Prop :=
  ∀ pos first lt, DescriptorAt d info stubs start pos → Descriptor d info pos first lt →
    ∀ i, (∀ j, j ≤ i → Resolves d info stubs lt j) → first.toNat + i * ptrSize info + ptrSize info ≤ room

/-- Every import is known. -/
def Bindable (stubs : Nat → UInt64) : Prop :=
  info.importRva = 0 ∨ ∃ start pos, (rvaToOffset d info info.importRva).result = .ok start ∧
    DescriptorAt d info stubs start pos ∧ u32At d (pos + 12) = some 0 ∧ u32At d (pos + 16) = some 0

@[simp] theorem allWithin_resolveThunk (stubs : Nat → UInt64) (base room : Nat) (entry : UInt64) :
    AllWithin base room (resolveThunk stubs d info entry) := by
  simp [resolveThunk, allWithin_ite, allWithin_bind]

@[simp] theorem resolveThunk_ends (stubs : Nat → UInt64) (entry : UInt64) : Ends (resolveThunk stubs d info entry) := by
  simp [resolveThunk]

section Imports

variable (stubs : Nat → UInt64) (base room : Nat)

theorem ptrSize_pos : 0 < ptrSize info := by
  unfold ptrSize
  split <;> decide

theorem thunkAt_inFile {lt : Nat} {entry : UInt64} (here : thunkAt d info lt = some entry) :
    lt + ptrSize info ≤ d.length := by
  unfold thunkAt at here
  unfold ptrSize
  split at here
  next is64 =>
    rw [if_pos is64]
    unfold u64At at here
    split at here
    · assumption
    · cases here
  next is32 =>
    rw [if_neg is32]
    unfold u32At at here
    split at here
    · assumption
    · cases here

variable (first : UInt32)

theorem bindThunk_next (s t : Nat × Nat) : (bindThunk stubs d info base first s).result = .ok (.inl t) ↔
      (∃ entry target, thunkAt d info s.1 = some entry ∧ entry ≠ 0 ∧
        (resolveThunk stubs d info entry).result = .ok target) ∧ t = (s.1 + ptrSize info, s.2 + 1) := by
  simp only [bindThunk, bind_ok, ite_ok, need_result]
  constructor
  · rintro ⟨entry, here, ⟨-, ⟨⟩⟩ | ⟨some', target, found, -, -, ⟨⟩⟩⟩
    exact ⟨⟨entry, target, here, some', found⟩, rfl⟩
  · rintro ⟨⟨entry, target, here, some', found⟩, rfl⟩
    exact ⟨entry, here, .inr ⟨some', target, found, (), rfl, rfl⟩⟩

variable (s : Nat × Nat)

theorem bindThunk_last (n : Nat) :
    (bindThunk stubs d info base first s).result = .ok (.inr n) ↔ thunkAt d info s.1 = some 0 ∧ n = s.2 := by
  simp only [bindThunk, bind_ok, ite_ok, need_result]
  constructor
  · rintro ⟨entry, here, ⟨rfl, ⟨⟩⟩ | ⟨-, target, -, -, -, ⟨⟩⟩⟩
    exact ⟨here, rfl⟩
  · rintro ⟨here, rfl⟩
    exact ⟨0, here, .inl ⟨rfl, rfl⟩⟩

theorem bindThunk_shrinks (s t : Nat × Nat)
    (on : (bindThunk stubs d info base first s).result = .ok (.inl t)) : d.length - t.1 < d.length - s.1 := by
  obtain ⟨⟨entry, target, here, -, -⟩, rfl⟩ := (bindThunk_next d info stubs base first s t).mp on
  have inFile := thunkAt_inFile d info here
  have positive := ptrSize_pos info
  omega

variable (lt : Nat)

theorem visits_thunk (s : Nat × Nat) : Visits (bindThunk stubs d info base first) (lt, 0) s ↔
      s.1 = lt + s.2 * ptrSize info ∧ ∀ i, i < s.2 → Resolves d info stubs lt i := by
  constructor
  · intro visited
    induction visited with
    | here => exact ⟨by simp, fun i none => absurd none (not_lt_zero i)⟩
    | @next t u before on ih =>
      obtain ⟨place, all⟩ := ih
      obtain ⟨resolved, rfl⟩ := (bindThunk_next d info stubs base first _ _).mp on
      rw [place] at resolved
      refine ⟨?_, fun i inside => ?_⟩
      · rw [place, succ_mul, add_assoc]
      · rcases Nat.lt_succ_iff_lt_or_eq.mp inside with earlier | rfl
        · exact all i earlier
        · exact resolved
  · obtain ⟨x, n⟩ := s
    rintro ⟨place, all⟩
    dsimp only at place all
    subst place
    induction n with
    | zero =>
      rw [zero_mul]
      exact .here
    | succ n ih =>
      refine .next (ih fun i inside => all i (lt_succ_of_lt inside)) ?_
      refine (bindThunk_next d info stubs base first _ _).mpr ⟨all n (lt_succ_self n), ?_⟩
      rw [succ_mul, add_assoc]

theorem bindThunk_within : AllWithin base room (bindThunk stubs d info base first s) ↔
    ((∃ entry target, thunkAt d info s.1 = some entry ∧ entry ≠ 0 ∧
      (resolveThunk stubs d info entry).result = .ok target) →
        first.toNat + s.2 * ptrSize info + ptrSize info ≤ room) := by
  have positive := ptrSize_pos info
  have slot : ∀ target, Within base room (.word (base + first.toNat + s.2 * ptrSize info) (ptrSize info) target) ↔
      first.toNat + s.2 * ptrSize info + ptrSize info ≤ room := by
    intro target
    unfold Within Store.width Store.addr
    dsimp only
    omega
  simp only [bindThunk, allWithin_bind, allWithin_ite, allWithin_need, allWithin_emit, allWithin_pure, need_result,
    slot, allWithin_resolveThunk, true_and, and_true, implies_true]
  constructor
  · rintro all ⟨entry, target, here, some', found⟩
    exact all entry here some' target found
  · intro fits entry here some' target found
    exact fits ⟨entry, target, here, some', found⟩

theorem bindThunk_ends : Ends (bindThunk stubs d info base first s) := by
  simp [bindThunk]

theorem thunks_size : d.length - (lt, 0).1 < d.length + 1 := by
  omega

theorem bindThunks_within :
    AllWithin base room (loop Halt.fuel (bindThunk stubs d info base first) (d.length + 1) (lt, 0)) ↔
      ∀ i, (∀ j, j ≤ i → Resolves d info stubs lt j) → first.toNat + i * ptrSize info + ptrSize info ≤ room := by
  rw [allWithin_loop (bindThunk_shrinks d info stubs base first) (thunks_size d lt)]
  simp only [bindThunk_within, visits_thunk]
  constructor
  · intro all i resolved
    exact all (lt + i * ptrSize info, i) ⟨rfl, fun j inside => resolved j (le_of_lt inside)⟩ (resolved i (le_refl i))
  · rintro all s ⟨place, before⟩ here
    refine all s.2 fun j inside => ?_
    rcases lt_or_eq_of_le inside with earlier | rfl
    · exact before j earlier
    unfold Resolves
    rw [← place]
    exact here

theorem bindThunks_ok (lt n : Nat) :
    (loop Halt.fuel (bindThunk stubs d info base first) (d.length + 1) (lt, 0)).result = .ok n ↔
      (∀ i, i < n → Resolves d info stubs lt i) ∧ thunkAt d info (lt + n * ptrSize info) = some 0 := by
  rw [loop_ok (bindThunk_shrinks d info stubs base first) (thunks_size d lt)]
  simp only [bindThunk_last, visits_thunk]
  constructor
  · rintro ⟨s, ⟨place, all⟩, zero, rfl⟩
    exact ⟨all, place ▸ zero⟩
  · rintro ⟨all, zero⟩
    exact ⟨(lt + n * ptrSize info, n), ⟨rfl, all⟩, zero, rfl⟩

/-- The loop goes on behind a descriptor whose entries are all known. -/
theorem bindDescriptor_next (s t : Nat × Nat) : (bindDescriptor stubs d info base s).result = .ok (.inl t) ↔
    ∃ first lt n, Descriptor d info s.1 first lt ∧ t = (s.1 + 20, s.2 + n) ∧
      (loop Halt.fuel (bindThunk stubs d info base first) (d.length + 1) (lt, 0)).result = .ok n := by
  simp only [bindDescriptor, bind_ok, ite_ok, need_result]
  constructor
  · rintro ⟨name, nameAt, first, firstAt, ⟨-, ⟨⟩⟩ | ⟨some', text, named, lt, lookup, n, bound, ⟨⟩⟩⟩
    exact ⟨first, lt, n, ⟨⟨name, nameAt, some', text, named⟩, firstAt, lookup⟩, rfl, bound⟩
  · rintro ⟨first, lt, n, ⟨⟨name, nameAt, some', text, named⟩, firstAt, lookup⟩, rfl, bound⟩
    exact ⟨name, nameAt, first, firstAt, .inr ⟨some', text, named, lt, lookup, n, bound, rfl⟩⟩

theorem bindDescriptor_last (n : Nat) : (bindDescriptor stubs d info base s).result = .ok (.inr n) ↔
    u32At d (s.1 + 12) = some 0 ∧ u32At d (s.1 + 16) = some 0 ∧ n = s.2 := by
  simp only [bindDescriptor, bind_ok, ite_ok, need_result]
  constructor
  · rintro ⟨name, nameAt, first, firstAt, ⟨⟨rfl, rfl⟩, ⟨⟩⟩ | ⟨-, text, -, lt, -, n, -, ⟨⟩⟩⟩
    exact ⟨nameAt, firstAt, rfl⟩
  · rintro ⟨nameAt, firstAt, rfl⟩
    exact ⟨0, nameAt, 0, firstAt, .inl ⟨⟨rfl, rfl⟩, rfl⟩⟩

theorem bindDescriptor_shrinks (s t : Nat × Nat) (on : (bindDescriptor stubs d info base s).result = .ok (.inl t)) :
    d.length - t.1 < d.length - s.1 := by
  obtain ⟨first, lt, n, descriptor, rfl, -⟩ := (bindDescriptor_next d info stubs base s t).mp on
  have inFile := descriptor.firstAt
  unfold u32At at inFile
  split at inFile
  · omega
  · cases inFile

theorem visits_descriptorAt (start pos : Nat) :
    (∃ bound, Visits (bindDescriptor stubs d info base) (start, 0) (pos, bound)) ↔
      DescriptorAt d info stubs start pos := by
  constructor
  · rintro ⟨bound, visited⟩
    generalize there : (pos, bound) = s at visited
    induction visited generalizing pos bound with
    | here =>
      cases there
      exact .first
    | next before on ih =>
      subst there
      obtain ⟨first, lt, n, descriptor, place, done⟩ := (bindDescriptor_next d info stubs base _ _).mp on
      obtain ⟨all, last⟩ := (bindThunks_ok d info stubs base first lt n).mp done
      cases place
      exact .next (ih _ _ rfl) descriptor all last
  · intro h
    induction h with
    | first => exact ⟨0, .here⟩
    | @next pos first lt n before descriptor all last ih =>
      obtain ⟨bound, visited⟩ := ih
      have done := (bindThunks_ok d info stubs base first lt n).mpr ⟨all, last⟩
      refine ⟨bound + n, visited.next ?_⟩
      exact (bindDescriptor_next d info stubs base _ _).mpr ⟨first, lt, n, descriptor, rfl, done⟩

theorem bindDescriptor_within : AllWithin base room (bindDescriptor stubs d info base s) ↔
    ∀ first lt, Descriptor d info s.1 first lt → ∀ i, (∀ j, j ≤ i → Resolves d info stubs lt j) →
      first.toNat + i * ptrSize info + ptrSize info ≤ room := by
  simp only [bindDescriptor, allWithin_bind, allWithin_ite, allWithin_need, allWithin_pure, allWithin_rvaToOffset,
    need_result, bindThunks_within, true_and, and_true, implies_true]
  constructor
  · rintro all first lt ⟨⟨name, nameAt, some', text, named⟩, firstAt, lookup⟩
    exact all name nameAt first firstAt some' text named lt lookup
  · intro all name nameAt first firstAt some' text named lt lookup
    exact all first lt ⟨⟨name, nameAt, some', text, named⟩, firstAt, lookup⟩

theorem bindDescriptor_ends : Ends (bindDescriptor stubs d info base s) := by
  have thunks (first : UInt32) (lt : Nat) :=
    ends_loop (bindThunk_shrinks d info stubs base first) (thunks_size d lt) (bindThunk_ends d info stubs base first)
  simp [bindDescriptor, thunks]

theorem bindImports_within : AllWithin base room (bindImports stubs d info base) ↔
    (info.importRva ≠ 0 → ∀ start, (rvaToOffset d info info.importRva).result = .ok start →
      SlotsFit d info stubs start room) := by
  simp only [bindImports, allWithin_ite, allWithin_bind, allWithin_pure, allWithin_rvaToOffset, implies_true, true_and]
  refine imp_congr_right fun _ => forall_congr' fun start => imp_congr_right fun _ => ?_
  rw [allWithin_loop (bindDescriptor_shrinks d info stubs base) (thunks_size d start)]
  simp only [bindDescriptor_within, SlotsFit, ← visits_descriptorAt d info stubs base]
  exact ⟨fun all pos first lt had => had.elim fun n visited => all (pos, n) visited first lt,
    fun all s visited first lt => all s.1 first lt ⟨s.2, visited⟩⟩

theorem bindImports_passes : Passes (bindImports stubs d info base) ↔ Bindable d info stubs := by
  unfold bindImports Bindable
  split
  next absent => exact iff_of_true (passes_pure 0) (.inl absent)
  rename_i present
  rw [passes_bind]
  simp only [Passes, present, false_or, loop_ok (bindDescriptor_shrinks d info stubs base) (thunks_size d _),
    bindDescriptor_last, ← visits_descriptorAt d info stubs base]
  constructor
  · rintro ⟨start, found, n, s, visited, nameAt, firstAt, -⟩
    exact ⟨start, s.1, found, ⟨s.2, visited⟩, nameAt, firstAt⟩
  · rintro ⟨start, pos, found, ⟨bound, visited⟩, nameAt, firstAt⟩
    exact ⟨start, found, bound, _, visited, nameAt, firstAt, rfl⟩

theorem bindImports_ends : Ends (bindImports stubs d info base) := by
  have descriptors (start : Nat) :=
    ends_loop (bindDescriptor_shrinks d info stubs base) (thunks_size d start) (bindDescriptor_ends d info stubs base)
  simp [bindImports, descriptors]

end Imports

/-! ## The whole image -/

/-- What the file says lies inside the image, as far as the loader reads it. -/
structure Fits (env : Env) (base : Nat) : Prop where
  headers : min info.sizeOfHeaders.toNat d.length ≤ roomOf info
  sections : ∀ i, i < info.sectionCount.toNat → (∀ j, j < i → (sectionAt d info j).isSome) →
    ∀ s, sectionAt d info i = some s → s.raw d = [] ∨ s.virtualAddress.toNat + (s.raw d).length ≤ roomOf info
  fixups : (∀ i, i < info.sectionCount.toNat → (sectionAt d info i).isSome) → deltaOf info base ≠ 0 →
    info.relocRva ≠ 0 → info.relocSize ≠ 0 → ∀ start, (rvaToOffset d info info.relocRva).result = .ok start →
      FixupsFit d (start + info.relocSize.toNat) start (roomOf info)
  slots : (∀ i, i < info.sectionCount.toNat → (sectionAt d info i).isSome) → Relocatable d info base →
    info.importRva ≠ 0 → ∀ start, (rvaToOffset d info info.importRva).result = .ok start →
      SlotsFit d info env.stubs start (roomOf info)
  entry : (∀ i, i < info.sectionCount.toNat → (sectionAt d info i).isSome) → Relocatable d info base →
    Bindable d info env.stubs → info.entryRva < info.sizeOfImage

section Image

variable (env : Env) (base : Nat)

/-- The result of a load, when there is one, names the entry point. -/
theorem loadImage_ok (out : RunResult) (ok : (loadImage env d info base).result = .ok out) :
    out.base = base ∧ out.entry = base + info.entryRva.toNat := by
  unfold loadImage at ok
  simp only [bind_ok] at ok
  obtain ⟨-, -, -, -, mapped, -, relocs, -, imports, -, last⟩ := ok
  cases last
  exact ⟨rfl, rfl⟩

theorem loadImage_passes : Passes (loadImage env d info base) ↔
    (∀ i, i < info.sectionCount.toNat → (sectionAt d info i).isSome) ∧ Relocatable d info base ∧
      Bindable d info env.stubs := by
  rw [← mapSections_passes d info base, ← applyRelocations_passes, ← bindImports_passes d info env.stubs base]
  unfold Passes loadImage
  simp only [bind_ok]
  constructor
  · rintro ⟨out, -, -, -, -, mapped, isMapped, relocs, isMoved, imports, isBound, -⟩
    exact ⟨⟨mapped, isMapped⟩, ⟨relocs, isMoved⟩, ⟨imports, isBound⟩⟩
  · rintro ⟨⟨mapped, isMapped⟩, ⟨relocs, isMoved⟩, ⟨imports, isBound⟩⟩
    exact ⟨_, (), rfl, (), rfl, mapped, isMapped, relocs, isMoved, imports, isBound, rfl⟩

theorem size_le_room : info.sizeOfImage.toNat ≤ roomOf info := by
  unfold roomOf pagesOf pageSize
  omega

theorem loadImage_within : AllWithin base (roomOf info) (loadImage env d info base) ↔
    min info.sizeOfHeaders.toNat d.length ≤ roomOf info ∧ AllWithin base (roomOf info) (mapSections d info base) ∧
      ((∀ i, i < info.sectionCount.toNat → (sectionAt d info i).isSome) →
        AllWithin base (roomOf info) (applyRelocations d info base) ∧
          (Relocatable d info base → AllWithin base (roomOf info) (bindImports env.stubs d info base))) := by
  have zeroed : Within base (roomOf info) (.bytes base (zeros info.sizeOfImage.toNat)) := by
    have := size_le_room info
    unfold Within Store.addr Store.width
    simp only [zeros_length]
    omega
  have headers : Within base (roomOf info) (.bytes base (d.take (min info.sizeOfHeaders.toNat d.length))) ↔
      min info.sizeOfHeaders.toNat d.length ≤ roomOf info := by
    unfold Within Store.addr Store.width
    simp only [List.length_take]
    omega
  rw [← mapSections_passes d info base, ← applyRelocations_passes]
  unfold loadImage Passes
  simp only [allWithin_bind, allWithin_emit, allWithin_pure, zeroed, headers, result_emit, true_and, forall_const,
    implies_true, and_true, forall_exists_index]

theorem loadImage_ends : Ends (loadImage env d info base) := by
  simp [loadImage, mapSections_ends, applyRelocations_ends, bindImports_ends]

theorem fits_iff : Fits d info env base ↔ AllWithin base (roomOf info) (loadImage env d info base) ∧
    (Passes (loadImage env d info base) → info.entryRva < info.sizeOfImage) := by
  rw [loadImage_within, loadImage_passes, mapSections_within, applyRelocations_within, bindImports_within]
  constructor
  · intro fits
    refine ⟨⟨fits.headers, fits.sections, fun mapped => ⟨fits.fixups mapped, fits.slots mapped⟩⟩, ?_⟩
    rintro ⟨mapped, moved, bound⟩
    exact fits.entry mapped moved bound
  · rintro ⟨⟨headers, sections, rest⟩, entry⟩
    refine ⟨headers, sections, fun mapped => (rest mapped).1, fun mapped => (rest mapped).2, ?_⟩
    exact fun mapped moved bound => entry ⟨mapped, moved, bound⟩

end Image

/-! ## Staying inside -/

/-- A run keeps to the frames it took: it writes to no other, calls nothing outside the image, and its loops
come to an end. -/
structure Contained (f : Frames) (r : Loader RunResult × Frames) : Prop where
  stores : ∀ s ∈ r.1.events, ∀ i, i < s.width → Frames.Took f r.2 (s.addr + i)
  entry : ∀ out, r.1.result = .ok out → out.base ≤ out.entry ∧ out.entry < out.base + info.sizeOfImage.toNat
  ends : Ends r.1

/-- What a run does once the headers have been read. -/
theorem run_parsed (env : Env) (f : Frames) (parsed : (parse d).result = .ok info) : run env d f =
    if info.is64 = true then
      if (f.allocContig (pagesOf info)).1 = 0 then
        (fail "could not allocate the image", (f.allocContig (pagesOf info)).2)
      else (loadImage env d info (f.allocContig (pagesOf info)).1, (f.allocContig (pagesOf info)).2)
    else (fail "32-bit executable: needs compatibility mode, not implemented", f) := by
  unfold run
  rw [parsed]
  by_cases is64 : info.is64 = true
  · simp [is64]
  · simp [is64]

theorem contained_fail (f g : Frames) (text : String) : Contained info f (fail text, g) where
  stores := by simp [fail]
  entry := by
    intro out ok
    cases ok
  ends := ends_fail text

theorem contained_loadImage (env : Env) (f : Frames) (got : (f.allocContig (pagesOf info)).1 ≠ 0) :
    Contained info f (loadImage env d info (f.allocContig (pagesOf info)).1, (f.allocContig (pagesOf info)).2) ↔
      Fits d info env (f.allocContig (pagesOf info)).1 := by
  have room : ∀ s, Within (f.allocContig (pagesOf info)).1 (roomOf info) s ↔
      ∀ i, i < s.width → Frames.Took f (f.allocContig (pagesOf info)).2 (s.addr + i) := by
    intro s
    simp only [within_iff, Frames.allocContig_took got, roomOf]
  rw [fits_iff]
  generalize (f.allocContig (pagesOf info)).1 = base at *
  constructor
  · intro contained
    refine ⟨fun s member => (room s).mpr (contained.stores s member), ?_⟩
    rintro ⟨out, ok⟩
    obtain ⟨atBase, atEntry⟩ := loadImage_ok d info env base out ok
    have inside := (contained.entry out ok).2
    rw [UInt32.lt_iff_toNat_lt]
    omega
  · rintro ⟨within, entry⟩
    refine ⟨fun s member => (room s).mp (within s member), fun out ok => ?_, loadImage_ends d info env base⟩
    obtain ⟨atBase, atEntry⟩ := loadImage_ok d info env base out ok
    have inside := UInt32.lt_iff_toNat_lt.mp (entry ⟨out, ok⟩)
    omega

/-- A run keeps to its frames exactly when what the file says fits, for a file whose image is allocated. -/
theorem contained_iff (env : Env) (f : Frames) (parsed : (parse d).result = .ok info) :
    Contained info f (run env d f) ↔ (info.is64 = true → (f.allocContig (pagesOf info)).1 ≠ 0 →
      Fits d info env (f.allocContig (pagesOf info)).1) := by
  rw [run_parsed d info env f parsed]
  split
  next is64 =>
    split
    next full => exact iff_of_true (contained_fail info _ _ _) fun _ got => absurd full got
    rename_i got
    rw [contained_loadImage d info env f got]
    exact ⟨fun fits _ _ => fits, fun fits => fits is64 got⟩
  next is32 => exact iff_of_true (contained_fail info _ _ _) fun is64 => absurd is64 is32

/-- A file of 289 octets with one section, of one octet at `va`, that wants to be loaded at 4096. -/
def samplePe (va : UInt32) : Bytes :=
  [0x4D, 0x5A] ++ zeros 0x3A ++ leBytes 4 0x40 ++
  -- the signature and the COFF header
  leBytes 4 0x4550 ++ leBytes 2 0x8664 ++ leBytes 2 1 ++ zeros 12 ++ leBytes 2 0xA0 ++ zeros 2 ++
  -- the optional header, with no data directories
  leBytes 2 0x020B ++ zeros 14 ++ leBytes 4 0x1000 ++ zeros 4 ++ leBytes 8 0x1000 ++ zeros 24 ++
    leBytes 4 0x2000 ++ leBytes 4 0x120 ++ zeros 96 ++
  -- the section
  zeros 8 ++ leBytes 4 1 ++ leBytes 4 va.toNat ++ leBytes 4 1 ++ leBytes 4 0x120 ++ zeros 16 ++ [0xC3]

def sampleInfo : PeInfo := ⟨true, 0x1000, 0x1000, 0x2000, 0x120, 1, 0xF8, 0, 0, 0, 0⟩

/-- All frames are free but the first. -/
def sampleFrames : Frames where
  used := fun i => i = 0

def sampleEnv : Env := ⟨fun _ => 0, fun _ => 0⟩

theorem samplePe_fits : Fits (samplePe 0x1000) sampleInfo sampleEnv 4096 where
  headers := by decide +kernel
  sections := by
    intro i inside _ s here
    have zero : i = 0 := by
      have : i < 1 := inside
      omega
    subst zero
    have only : sectionAt (samplePe 0x1000) sampleInfo 0 = some ⟨1, 0x1000, 1, 0x120⟩ := by decide +kernel
    rw [only] at here
    cases here
    right
    decide +kernel
  fixups := by
    intro _ moved
    exact absurd (by decide +kernel) moved
  slots := by
    intro _ _ present
    exact absurd rfl present
  entry := by
    intro _ _ _
    decide +kernel

theorem samplePe_contained : Contained sampleInfo sampleFrames (run sampleEnv (samplePe 0x1000) sampleFrames) := by
  have at4096 : (sampleFrames.allocContig (pagesOf sampleInfo)).1 = 4096 := by decide +kernel
  refine (contained_iff (samplePe 0x1000) sampleInfo sampleEnv sampleFrames (by decide +kernel)).mpr fun _ _ => ?_
  exact samplePe_fits

/-- A section is put where its header says, be it outside the image. -/
theorem section_outside : ¬ ∀ (env : Env) (d : Bytes) (info : PeInfo) (f : Frames), (parse d).result = .ok info →
    Contained info f (run env d f) := by
  intro always
  have contained := always sampleEnv (samplePe 0x10000) sampleInfo sampleFrames (by decide +kernel)
  have stored : Store.bytes 0x11000 [0xC3] ∈ (run sampleEnv (samplePe 0x10000) sampleFrames).1.events := by
    decide +kernel
  have taken := (contained.stores _ stored 0 (by decide)).2
  revert taken
  decide +kernel

end BarryOS.Compat.Pe
