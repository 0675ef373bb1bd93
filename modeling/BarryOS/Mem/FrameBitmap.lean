import BarryOS.Lib.Bitmap
import BarryOS.Mem.FrameAlloc

/-!
# The frame allocator over its bitmap (mem/frame_alloc.rs)

`init` marks every frame used, clears the frames of the usable regions of the memory map and
sets those of the kernel. `usize` arithmetic wraps, as in the release build: the frames of a
region are counted from `start >> PAGE_SHIFT`, and the statistics from what was cleared.

The bitmap is seen as `Frames`, whose scan `alloc_contig` runs. Printing is left out, and of
the memory map what only its statistics read.
-/

namespace BarryOS.Mem

open Lib

inductive MemoryType where
  | reserved | loaderCode | loaderData | bootServicesCode | bootServicesData | runtimeServicesCode
  | runtimeServicesData | conventionalMemory | unusableMemory | acpiReclaimMemory | acpiMemoryNvs
  | memoryMappedIo | memoryMappedIoPortSpace | palCode | persistentMemory
  deriving DecidableEq, Repr

/-- True if this memory is usable for the frame allocator. -/
def MemoryType.isUsable : MemoryType → Bool
  | conventionalMemory => true
  | _ => false

structure Region where
  start : UInt64
  pages : UInt64
  kind : MemoryType
  deriving DecidableEq, Repr

def maxRegions : Nat := 32

/-- `regions[..count]`. -/
structure MemMap where
  regions : List Region
  stored : regions.length ≤ maxRegions

namespace MemMap

def empty : MemMap := ⟨[], Nat.zero_le _⟩

theorem push_stored {m : MemMap} (room : m.regions.length < maxRegions) (r : Region) :
    (m.regions ++ [r]).length ≤ maxRegions := by
  rw [List.length_append]
  exact room

/-- A region beyond the last place is dropped. -/
def push (r : Region) (m : MemMap) : MemMap :=
  if room : m.regions.length < maxRegions then ⟨m.regions ++ [r], push_stored room r⟩ else m

end MemMap

def kernelBase : Nat := 0x00100000

def kernelStackTop : Nat := 0x01000000

def pageShift : UInt64 := 12

structure BitmapFrameAllocator where
  bitmap : Bitmap := fun _ => 0
  framesTotal : UInt64 := 0
  framesUsed : UInt64 := 0
  framesUsable : UInt64 := 0
  nextHint : Nat := 0

namespace BitmapFrameAllocator

/-- What the bitmap says. -/
def frames (a : BitmapFrameAllocator) : Frames where
  used := a.bitmap.testBit
  framesUsed := a.framesUsed.toNat
  nextHint := a.nextHint

/-- The frames of a usable region: `for j in 0..n`. -/
def clearFrames (first : UInt64) : Nat → BitmapFrameAllocator → BitmapFrameAllocator
  | 0, a => a
  | n + 1, a =>
    let a := clearFrames first n a
    let f := (first + UInt64.ofNat n).toNat
    if f < maxFrames then { a with bitmap := a.bitmap.clearBit f, framesUsable := a.framesUsable + 1 } else a

def clearRegion (a : BitmapFrameAllocator) (r : Region) : BitmapFrameAllocator :=
  if r.kind.isUsable then clearFrames (r.start >>> pageShift) r.pages.toNat a else a

/-- Initialize: mark everything as used, then clear bits for usable regions. -/
def init (mm : MemMap) (a : BitmapFrameAllocator) : BitmapFrameAllocator :=
  let a := { a with bitmap := fun _ => 0xFF, framesTotal := UInt64.ofNat maxFrames }
  let a := mm.regions.foldl clearRegion a
  let first := kernelBase / pageSize
  let last := kernelStackTop / pageSize
  -- The code also asks for `f < MAX_FRAMES`, which all of these are.
  { a with
    bitmap := a.bitmap.setRange first (last - first)
    framesUsed := a.framesTotal - a.framesUsable }

/-- The loop of `alloc`, `left` rounds from round `i` on. -/
def search (a : BitmapFrameAllocator) : (left i : Nat) → Option Nat
  | 0, _ => none
  | left + 1, i =>
    let idx := (a.nextHint + i) % maxFrames
    if a.bitmap.testBit idx then search a left (i + 1) else some idx

/-- Allocate one 4 KiB frame. Returns the physical address or 0 on OOM. -/
def alloc (a : BitmapFrameAllocator) : Nat × BitmapFrameAllocator :=
  match a.search maxFrames 0 with
  | none => (0, a)
  | some idx => (idx * pageSize, { a with
      bitmap := a.bitmap.setBit idx
      framesUsed := a.framesUsed + 1
      nextHint := (idx + 1) % maxFrames })

/-- Allocate `n` contiguous frames. Returns physical address or 0. -/
def allocContig (n : Nat) (a : BitmapFrameAllocator) : Nat × BitmapFrameAllocator :=
  if n = 0 then (0, a)
  else
    match a.frames.scan n maxFrames 0 0 0 with
    | none => (0, a)
    | some start => (start * pageSize, { a with
        bitmap := a.bitmap.setRange start n
        framesUsed := a.framesUsed + UInt64.ofNat n
        nextHint := (start + n) % maxFrames })

/-- Free a previously-allocated frame. -/
def free (addr : UInt64) (a : BitmapFrameAllocator) : BitmapFrameAllocator :=
  let idx := (addr >>> pageShift).toNat
  if idx < maxFrames && a.bitmap.testBit idx then
    { a with
      bitmap := a.bitmap.clearBit idx
      framesUsed := a.framesUsed - 1
      nextHint := if idx < a.nextHint then idx else a.nextHint }
  else a

end BitmapFrameAllocator

/-! ## What `init` leaves free -/

/-- The frames that `init` counts into a region. -/
def Region.Covers (r : Region) (f : Nat) : Prop :=
  ∃ j < r.pages.toNat, (r.start >>> pageShift + UInt64.ofNat j).toNat = f

/-- The kernel image and its stack, from 1 MiB to 16 MiB. -/
def InKernel (f : Nat) : Prop := kernelBase < (f + 1) * pageSize ∧ f * pageSize < kernelStackTop

/-- The frames that `init` leaves free. -/
def MemMap.Offers (mm : MemMap) (f : Nat) : Prop :=
  f < maxFrames ∧ (∃ r ∈ mm.regions, r.kind.isUsable = true ∧ r.Covers f) ∧ ¬ InKernel f

namespace BitmapFrameAllocator

theorem clearFrames_free (first : UInt64) (n : Nat) (a : BitmapFrameAllocator) (f : Nat) :
    (clearFrames first n a).bitmap.testBit f = false ↔
      a.bitmap.testBit f = false ∨ f < maxFrames ∧ ∃ j < n, (first + UInt64.ofNat j).toNat = f := by
  induction n with
  | zero => simp [clearFrames]
  | succ n ih =>
    have step : (clearFrames first (n + 1) a).bitmap.testBit f = false ↔
        (clearFrames first n a).bitmap.testBit f = false ∨ f < maxFrames ∧ (first + UInt64.ofNat n).toNat = f := by
      rw [clearFrames]
      split
      next inside =>
        simp only [Bitmap.testBit_clearBit, Bool.and_eq_false_iff, Bool.not_eq_false', decide_eq_true_eq]
        constructor
        · rintro (free | rfl)
          · exact .inl free
          · exact .inr ⟨inside, rfl⟩
        · rintro (free | ⟨-, equal⟩)
          · exact .inl free
          · exact .inr equal
      next outside =>
        constructor
        · exact .inl
        · rintro (free | ⟨inside, rfl⟩)
          · exact free
          · exact absurd inside outside
    rw [step, ih]
    constructor
    · rintro ((free | ⟨inside, j, low, equal⟩) | ⟨inside, equal⟩)
      · exact .inl free
      · exact .inr ⟨inside, j, by omega, equal⟩
      · exact .inr ⟨inside, n, by omega, equal⟩
    · rintro (free | ⟨inside, j, low, equal⟩)
      · exact .inl (.inl free)
      · by_cases last : j = n
        · subst last
          exact .inr ⟨inside, equal⟩
        · exact .inl (.inr ⟨inside, j, by omega, equal⟩)

theorem clearRegion_free (a : BitmapFrameAllocator) (r : Region) (f : Nat) :
    (a.clearRegion r).bitmap.testBit f = false ↔
      a.bitmap.testBit f = false ∨ f < maxFrames ∧ r.kind.isUsable = true ∧ r.Covers f := by
  unfold clearRegion
  split
  next usable =>
    rw [clearFrames_free]
    simp [usable, Region.Covers]
  next unusable => simp [unusable]

theorem clearRegions_free (rs : List Region) (a : BitmapFrameAllocator) (f : Nat) :
    (rs.foldl clearRegion a).bitmap.testBit f = false ↔
      a.bitmap.testBit f = false ∨ f < maxFrames ∧ ∃ r ∈ rs, r.kind.isUsable = true ∧ r.Covers f := by
  induction rs generalizing a with
  | nil => simp
  | cons r rs ih =>
    rw [List.foldl_cons, ih, clearRegion_free]
    simp only [List.mem_cons, exists_eq_or_imp]
    tauto

theorem inKernel_iff (f : Nat) : InKernel f ↔ 256 ≤ f ∧ f < 256 + 3840 := by
  unfold InKernel kernelBase kernelStackTop pageSize
  omega

/-- Exactly the frames that the map offers are free at first. -/
theorem init_free (mm : MemMap) (a : BitmapFrameAllocator) (f : Nat) :
    (a.init mm).bitmap.testBit f = false ↔ mm.Offers f := by
  have span : (a.init mm).bitmap.testBit f = ((mm.regions.foldl clearRegion
      { a with bitmap := fun _ => 0xFF, framesTotal := UInt64.ofNat maxFrames }).bitmap.testBit f ||
        decide (256 ≤ f ∧ f < 256 + 3840)) := Bitmap.testBit_setRange _ 256 3840 f
  rw [span, Bool.or_eq_false_iff, clearRegions_free, Bitmap.testBit_full, decide_eq_false_iff_not, ← inKernel_iff]
  unfold MemMap.Offers
  simp [and_assoc]

end BitmapFrameAllocator

end BarryOS.Mem
