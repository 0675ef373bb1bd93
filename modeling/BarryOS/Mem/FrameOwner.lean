import Mathlib.Data.Finset.Card
import BarryOS.Lib.Run
import BarryOS.Mem.FrameBitmap

/-!
# Who owns which frame

The frames that `alloc` and `alloc_contig` handed out and that were not freed since. A call that
returns 0 hands nothing out, also when it took frame 0.

Whatever the callers do, as long as they free only what they own, no frame has two owners, and
all of them are frames that the memory map offers. Those lie in a usable region as long as no
usable region starts within a page: `init` rounds the start of a region down.
-/

namespace BarryOS.Mem

open Lib List Nat

/-- An allocator and what its callers hold. -/
structure Owner where
  fa : BitmapFrameAllocator
  held : List Nat

inductive FrameOp where
  | alloc
  | allocContig (n : Nat)
  | free (addr : UInt64)
  deriving DecidableEq, Repr

/-- The frames of a block of `n` at an address; 0 is no block. -/
def blockAt (addr n : Nat) : List Nat := if addr = 0 then [] else range' (addr / pageSize) n

namespace Owner

def boot (mm : MemMap) : Owner := ⟨BitmapFrameAllocator.init mm {}, []⟩

def step (o : Owner) : FrameOp → Owner
  | .alloc => ⟨o.fa.alloc.2, blockAt o.fa.alloc.1 1 ++ o.held⟩
  | .allocContig n => ⟨(o.fa.allocContig n).2, blockAt (o.fa.allocContig n).1 n ++ o.held⟩
  | .free addr => ⟨o.fa.free addr, o.held.erase (addr.toNat / pageSize)⟩

/-- Only frames currently owned are freed. -/
def Frees (o : Owner) : FrameOp → Prop
  | .free addr => addr.toNat / pageSize ∈ o.held
  | _ => True

end Owner

/-- The whole frame is part of the region. -/
def Region.Contains (r : Region) (f : Nat) : Prop :=
  r.start.toNat ≤ f * pageSize ∧ (f + 1) * pageSize ≤ r.start.toNat + r.pages.toNat * pageSize

/-- A frame within one usable region of the map. -/
def MemMap.Usable (mm : MemMap) (f : Nat) : Prop :=
  ∃ r ∈ mm.regions, r.kind.isUsable = true ∧ r.Contains f

structure Owned (mm : MemMap) (o : Owner) : Prop where
  distinct : o.held.Nodup
  contiguous : ∀ n, (o.fa.allocContig n).1 ≠ 0 → pageSize ∣ (o.fa.allocContig n).1 ∧ ∀ f,
    o.fa.bitmap.testBit f = false ∧ (o.fa.allocContig n).2.bitmap.testBit f = true ↔
      f ∈ blockAt (o.fa.allocContig n).1 n
  usable : ∀ f ∈ o.held, mm.Usable f
  apart : ∀ f ∈ o.held, ¬ InKernel f

/-- Every page but the first that a usable region reaches is part of one. -/
def MemMap.Paged (mm : MemMap) : Prop := ∀ f, f ≠ 0 → mm.Offers f → mm.Usable f

/-! ## What the calls take -/

variable {a : BitmapFrameAllocator}

namespace BitmapFrameAllocator

/-- A call that sets the bits of a block of free frames, and no others. -/
structure Takes (a a' : BitmapFrameAllocator) (block : List Nat) : Prop where
  free : ∀ f ∈ block, a.bitmap.testBit f = false
  after : ∀ f, a'.bitmap.testBit f = (a.bitmap.testBit f || decide (f ∈ block))

theorem search_some {left i idx : Nat} (found : a.search left i = some idx) :
    idx < maxFrames ∧ a.bitmap.testBit idx = false := by
  induction left generalizing i with
  | zero => cases found
  | succ left ih =>
    unfold search at found
    dsimp only at found
    split at found
    · exact ih found
    rename_i free
    cases found
    exact ⟨mod_lt _ (by decide), by simpa using free⟩

theorem search_none {left i : Nat} (nothing : a.search left i = none) :
    ∀ j < left, a.bitmap.testBit ((a.nextHint + (i + j)) % maxFrames) = true := by
  induction left generalizing i with
  | zero =>
    intro j low
    omega
  | succ left ih =>
    unfold search at nothing
    dsimp only at nothing
    split at nothing
    next used =>
      intro j low
      cases j with
      | zero => exact used
      | succ j =>
        have later := ih nothing j (by omega)
        rwa [add_assoc, add_comm 1 j] at later
    · cases nothing

/-- The search goes round once: it misses no frame. -/
theorem search_full (nothing : a.search maxFrames 0 = none) {f : Nat} (inside : f < maxFrames) :
    a.bitmap.testBit f = true := by
  have size : maxFrames = 65536 := rfl
  have round := search_none nothing ((f + (maxFrames - a.nextHint % maxFrames)) % maxFrames) (mod_lt _ (by decide))
  have lands : (a.nextHint + (0 + (f + (maxFrames - a.nextHint % maxFrames)) % maxFrames)) % maxFrames = f := by
    rw [size] at inside ⊢
    omega
  rwa [lands] at round

/-- What `alloc` does: nothing when all frames are used, and otherwise it takes one that is free. -/
theorem alloc_cases (a : BitmapFrameAllocator) : (a.alloc = (0, a) ∧ ∀ f < maxFrames, a.bitmap.testBit f = true) ∨
      ∃ idx < maxFrames, a.alloc.1 = idx * pageSize ∧ Takes a a.alloc.2 [idx] ∧
        a.alloc.2.framesUsed = a.framesUsed + 1 := by
  unfold alloc
  split
  next nothing => exact .inl ⟨rfl, fun f => search_full nothing⟩
  rename_i idx found
  obtain ⟨inside, free⟩ := search_some found
  refine .inr ⟨idx, inside, rfl, ⟨?_, fun f => ?_⟩, rfl⟩
  · intro f member
    rw [mem_singleton] at member
    exact member ▸ free
  · simp [eq_comm]

/-- `n` frames one after the other that are free. -/
def Run (a : BitmapFrameAllocator) (start n : Nat) : Prop :=
  0 < n ∧ start + n ≤ maxFrames ∧ ∀ f ∈ range' start n, a.bitmap.testBit f = false

/-- What `alloc_contig` does: nothing when there is no such run, and otherwise it takes one. -/
theorem allocContig_cases (n : Nat) (a : BitmapFrameAllocator) :
    (a.allocContig n = (0, a) ∧ ∀ start, ¬ a.Run start n) ∨ ∃ start, a.Run start n ∧
      (a.allocContig n).1 = start * pageSize ∧ Takes a (a.allocContig n).2 (range' start n) ∧
        (a.allocContig n).2.framesUsed = a.framesUsed + UInt64.ofNat n := by
  unfold allocContig
  split
  next zero => exact .inl ⟨rfl, fun start run => absurd zero (Nat.pos_iff_ne_zero.mp run.1)⟩
  rename_i some'
  have pos := Nat.pos_of_ne_zero some'
  split
  next nothing =>
    refine .inl ⟨rfl, fun start run => ?_⟩
    obtain ⟨f, low, high, used⟩ := Frames.scan_none pos nothing start (by omega) (by simpa using run.2.1)
    have unused := run.2.2 f (mem_range'_1.mpr ⟨low, high⟩)
    cases unused.symm.trans used
  next start found =>
    obtain ⟨inside, free⟩ := Frames.scan_free (fun no => absurd rfl no) (fun j _ high => by omega) pos found
    have free : ∀ f ∈ range' start n, a.bitmap.testBit f = false := by
      intro f member
      rw [mem_range'_1] at member
      exact free f member.1 member.2
    refine .inr ⟨start, ⟨pos, by simpa using inside, free⟩, rfl, ⟨free, fun f => ?_⟩, rfl⟩
    simp

theorem blockAt_mul {start n : Nat} (some' : start ≠ 0) : blockAt (start * pageSize) n = range' start n := by
  unfold blockAt
  rw [if_neg (Nat.mul_ne_zero some' (by decide)), Nat.mul_div_cancel _ (by decide)]

theorem free_after {addr : UInt64} (inside : addr.toNat / pageSize < maxFrames) (f : Nat) :
    (a.free addr).bitmap.testBit f = (a.bitmap.testBit f && !decide (addr.toNat / pageSize = f)) := by
  have shifted : (addr >>> pageShift).toNat = addr.toNat / pageSize := by
    exact shiftRight_eq_div_pow _ 12
  unfold free
  rw [shifted]
  dsimp only
  split
  · rw [Bitmap.testBit_clearBit]
  rename_i unused
  have unused : a.bitmap.testBit (addr.toNat / pageSize) = false := by simpa [inside] using unused
  by_cases here : addr.toNat / pageSize = f
  · rw [← here, unused]
    rfl
  · simp [here]

end BitmapFrameAllocator

/-! ## The invariant -/

/-- What holds of an allocator and its callers, whatever the map is. -/
structure Sound (mm : MemMap) (o : Owner) : Prop where
  distinct : o.held.Nodup
  used : ∀ f ∈ o.held, o.fa.bitmap.testBit f = true
  offered : ∀ f ∈ o.held, mm.Offers f
  nonzero : 0 ∉ o.held
  free : ∀ f, o.fa.bitmap.testBit f = false → mm.Offers f

namespace Sound

open BitmapFrameAllocator

variable {mm : MemMap} {o : Owner}

theorem boot (mm : MemMap) : Sound mm (Owner.boot mm) where
  distinct := nodup_nil
  used := fun _ member => by cases member
  offered := fun _ member => by cases member
  nonzero := not_mem_nil
  free := fun f unused => (init_free mm {} f).mp unused

variable {fa : BitmapFrameAllocator}

/-- Frames are taken, and a caller gets them or nobody does. -/
theorem take (h : Sound mm o) {block got : List Nat} (takes : Takes o.fa fa block)
    (nodup : got.Nodup) (part : got ⊆ block) (nonzero : 0 ∉ got) : Sound mm ⟨fa, got ++ o.held⟩ where
  distinct := by
    refine nodup_append.mpr ⟨nodup, h.distinct, fun f new g old equal => ?_⟩
    subst equal
    have unused := takes.free f (part new)
    rw [h.used f old] at unused
    cases unused
  used := fun f member => by
    rw [takes.after]
    rcases mem_append.mp member with new | old
    · simp [part new]
    · simp [h.used f old]
  offered := fun f member => by
    rcases mem_append.mp member with new | old
    · exact h.free f (takes.free f (part new))
    · exact h.offered f old
  nonzero := fun member => by
    rcases mem_append.mp member with new | old
    · exact nonzero new
    · exact h.nonzero old
  free := fun f unused => by
    rw [takes.after, Bool.or_eq_false_iff] at unused
    exact h.free f unused.1

/-- A block of frames is handed out by its address, and not at all when that is 0. -/
theorem takeBlock (h : Sound mm o) {start n : Nat}
    (takes : Takes o.fa fa (range' start n)) : Sound mm ⟨fa, blockAt (start * pageSize) n ++ o.held⟩ := by
  by_cases zero : start = 0
  · subst zero
    exact h.take takes nodup_nil (nil_subset _) not_mem_nil
  rw [blockAt_mul zero]
  refine h.take takes nodup_range' (Subset.refl _) fun member => zero ?_
  rw [mem_range'_1] at member
  omega

theorem alloc (h : Sound mm o) : Sound mm (o.step .alloc) := by
  rcases alloc_cases o.fa with ⟨nothing, -⟩ | ⟨idx, -, addr, takes, -⟩
  · rw [Owner.step, nothing]
    exact h
  rw [Owner.step, addr]
  exact h.takeBlock takes

theorem allocContig (h : Sound mm o) (n : Nat) : Sound mm (o.step (.allocContig n)) := by
  rcases allocContig_cases n o.fa with ⟨nothing, -⟩ | ⟨start, -, addr, takes, -⟩
  · rw [Owner.step, nothing]
    exact h
  rw [Owner.step, addr]
  exact h.takeBlock takes

theorem giveBack (h : Sound mm o) {addr : UInt64} (owned : addr.toNat / pageSize ∈ o.held) :
    Sound mm (o.step (.free addr)) where
  distinct := h.distinct.erase _
  used := fun f member => by
    obtain ⟨other, old⟩ := h.distinct.mem_erase_iff.mp member
    rw [Owner.step, free_after (h.offered _ owned).1, h.used f old]
    simp [Ne.symm other]
  offered := fun f member => h.offered f (mem_of_mem_erase member)
  nonzero := fun member => h.nonzero (mem_of_mem_erase member)
  free := fun f unused => by
    rw [Owner.step, free_after (h.offered _ owned).1, Bool.and_eq_false_iff] at unused
    rcases unused with unused | freed
    · exact h.free f unused
    have here : addr.toNat / pageSize = f := by simpa using freed
    exact here ▸ h.offered _ owned

theorem step (h : Sound mm o) (op : FrameOp) (frees : o.Frees op) : Sound mm (o.step op) := by
  cases op with
  | alloc => exact h.alloc
  | allocContig n => exact h.allocContig n
  | free addr => exact h.giveBack frees

/-- `alloc_contig` takes the block at the address that it returns. -/
theorem contiguous (o : Owner) (n : Nat) (got : (o.fa.allocContig n).1 ≠ 0) : pageSize ∣ (o.fa.allocContig n).1 ∧ ∀ f,
      o.fa.bitmap.testBit f = false ∧ (o.fa.allocContig n).2.bitmap.testBit f = true ↔
        f ∈ blockAt (o.fa.allocContig n).1 n := by
  rcases allocContig_cases n o.fa with ⟨nothing, -⟩ | ⟨start, -, addr, takes, -⟩
  · rw [nothing] at got
    exact absurd rfl got
  have nonzero : start ≠ 0 := by
    rintro rfl
    rw [addr] at got
    exact got rfl
  rw [addr, blockAt_mul nonzero]
  refine ⟨dvd_mul_left _ _, fun f => ?_⟩
  rw [takes.after]
  constructor
  · rintro ⟨unused, used⟩
    simpa [unused] using used
  · intro member
    exact ⟨takes.free f member, by simp [member]⟩

theorem owned (h : Sound mm o) (paged : mm.Paged) : Owned mm o where
  distinct := h.distinct
  contiguous := contiguous o
  usable := fun f member => paged f (fun zero => h.nonzero (zero ▸ member)) (h.offered f member)
  apart := fun f member => (h.offered f member).2.2

end Sound

/-! ## Every frame is handed out in the end -/

namespace Owner

open BitmapFrameAllocator

/-- The frames that are left. -/
def left (o : Owner) : Finset Nat := (Finset.range maxFrames).filter fun f => o.fa.bitmap.testBit f = false

/-- The offered frames that are used belong to somebody, but for frame 0. -/
def Lent (mm : MemMap) (o : Owner) : Prop :=
  ∀ f, f ≠ 0 → mm.Offers f → o.fa.bitmap.testBit f = true → f ∈ o.held

theorem lent_boot (mm : MemMap) : Lent mm (boot mm) := by
  intro f _ offers used
  have unused := (init_free mm {} f).mpr offers
  rw [boot, unused] at used
  cases used

theorem lent_alloc {mm : MemMap} {o : Owner} (h : Lent mm o) : Lent mm (o.step .alloc) := by
  rcases alloc_cases o.fa with ⟨nothing, -⟩ | ⟨idx, -, addr, takes, -⟩
  · rw [step, nothing]
    exact h
  intro f nonzero offers used
  rw [step, addr]
  rw [step, takes.after, Bool.or_eq_true, decide_eq_true_iff, mem_singleton] at used
  rcases used with old | rfl
  · exact mem_append_right _ (h f nonzero offers old)
  rw [blockAt_mul nonzero]
  exact mem_append_left _ (mem_singleton.mpr rfl)

/-- As long as a frame is left, `alloc` takes one. -/
theorem left_alloc (o : Owner) : o.left = ∅ ∧ (o.step .alloc).left = ∅ ∨ (o.step .alloc).left ⊂ o.left := by
  rcases alloc_cases o.fa with ⟨nothing, full⟩ | ⟨idx, inside, addr, takes, -⟩
  · have none' : o.left = ∅ := by
      refine Finset.filter_eq_empty_iff.mpr fun f inside => ?_
      simp [full f (Finset.mem_range.mp inside)]
    refine .inl ⟨none', ?_⟩
    rw [step, nothing]
    exact none'
  · refine .inr (Finset.ssubset_iff_of_subset ?_ |>.mpr ⟨idx, ?_, ?_⟩)
    · intro f member
      simp only [left, step, Finset.mem_filter, takes.after, Bool.or_eq_false_iff] at member ⊢
      exact ⟨member.1, member.2.1⟩
    · simp [left, inside, takes.free idx]
    · simp [left, step, takes.after]

/-- So many calls of `alloc` as there are frames left take them all. -/
theorem left_run (k : Nat) (o : Owner) (few : o.left.card ≤ k) : (Lib.run step o (replicate k .alloc)).left = ∅ := by
  induction k generalizing o with
  | zero => exact Finset.card_eq_zero.mp (le_zero.mp few)
  | succ k ih =>
    apply ih
    rcases left_alloc o with ⟨-, none'⟩ | fewer
    · simp [none']
    have less := Finset.card_lt_card fewer
    omega

theorem lent_run (mm : MemMap) (k : Nat) (o : Owner) (h : Lent mm o) :
    Lent mm (Lib.run step o (replicate k .alloc)) := by
  induction k generalizing o with
  | zero => exact h
  | succ k ih =>
    exact ih _ (lent_alloc h)

theorem frees_replicate (k : Nat) (o : Owner) : Along step Frees o (replicate k .alloc) := by
  induction k generalizing o with
  | zero => trivial
  | succ k ih => exact ⟨trivial, ih _⟩

/-- Whoever asks often enough gets every frame that the map offers. -/
theorem held_of_offers {mm : MemMap} {f : Nat} (nonzero : f ≠ 0) (offers : mm.Offers f) :
    f ∈ (Lib.run step (boot mm) (replicate maxFrames .alloc)).held := by
  have few : (boot mm).left.card ≤ maxFrames := by
    have all := Finset.card_filter_le (Finset.range maxFrames) fun f => (boot mm).fa.bitmap.testBit f = false
    rwa [Finset.card_range] at all
  have none' := left_run maxFrames (boot mm) few
  apply lent_run mm maxFrames (boot mm) (lent_boot mm) f nonzero offers
  have used := Finset.filter_eq_empty_iff.mp none' (Finset.mem_range.mpr offers.1)
  simpa using used

end Owner

/-- In every run in which only owned frames are freed the frames handed out are distinct and apart from
the kernel, and blocks are contiguous. They lie in usable regions exactly if the pages of these do. -/
theorem owned_iff (mm : MemMap) : (∀ ops, Along Owner.step Owner.Frees (Owner.boot mm) ops →
      Throughout Owner.step (Owned mm) (Owner.boot mm) ops) ↔ mm.Paged := by
  constructor
  · intro always f nonzero offers
    have owned := (always _ (Owner.frees_replicate maxFrames _)).last
    exact owned.usable f (Owner.held_of_offers nonzero offers)
  · intro paged ops frees
    have sound := Along.throughout (Sound mm) (fun o op h => h.step op) (Sound.boot mm) frees
    exact sound.mono fun o h => h.owned paged

/-- One page of memory from the middle of a page on. -/
def splitPage : MemMap := MemMap.empty.push ⟨0x1000800, 1, .conventionalMemory⟩

/-- The page in which the region starts is handed out, with the half that is not part of the region. -/
theorem split_page_handed_out : ¬ ∀ (mm : MemMap) (ops : List FrameOp),
    Along Owner.step Owner.Frees (Owner.boot mm) ops → Throughout Owner.step (Owned mm) (Owner.boot mm) ops := by
  intro always
  have owned := (always splitPage _ (Owner.frees_replicate maxFrames _)).last
  have offers : splitPage.Offers 4096 := by
    refine ⟨by decide, ⟨⟨0x1000800, 1, .conventionalMemory⟩, mem_singleton.mpr rfl, rfl, 0, by decide, by decide⟩, ?_⟩
    rw [BitmapFrameAllocator.inKernel_iff]
    decide
  obtain ⟨r, member, -, start, -⟩ := owned.usable 4096 (Owner.held_of_offers (by decide) offers)
  have only : r = ⟨0x1000800, 1, .conventionalMemory⟩ := mem_singleton.mp member
  subst only
  exact absurd start (by decide)

end BarryOS.Mem
