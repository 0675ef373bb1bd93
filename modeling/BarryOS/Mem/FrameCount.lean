import Mathlib.Algebra.Order.BigOperators.Group.List
import Mathlib.Algebra.Order.Ring.Nat
import Mathlib.Order.Interval.Finset.Nat
import BarryOS.Mem.FrameOwner

/-!
# Failures and counts of the frame allocator

`alloc` and `alloc_contig` answer 0 when they fail, and 0 is the address of frame 0. `init` counts
the pages of the usable regions, a page as often as regions name it, and reserves the kernel's
afterwards without taking them off the count.

While frame 0 is never free, and the map names every frame once and none of the kernel's, a call
fails only when it has to and the count is that of the bitmap.
-/

namespace BarryOS.Mem

open Lib BitmapFrameAllocator Owner Finset

variable {a a' : BitmapFrameAllocator}

namespace BitmapFrameAllocator

/-- `used_pages`. -/
def usedPages (a : BitmapFrameAllocator) : Nat := a.framesUsed.toNat

def setBits (a : BitmapFrameAllocator) : Finset Nat :=
  (Finset.range maxFrames).filter fun f => a.bitmap.testBit f = true

end BitmapFrameAllocator

/-- Whichever call is made now: it answers 0 only when no frames suit, and then leaves the bitmap as it
is. And the count is right. -/
structure Accounted (o : Owner) : Prop where
  alloc : o.fa.alloc.1 = 0 → (∀ f < maxFrames, o.fa.bitmap.testBit f = true) ∧ o.fa.alloc.2.bitmap = o.fa.bitmap
  allocContig : ∀ n, (o.fa.allocContig n).1 = 0 →
    (∀ start, ¬ o.fa.Run start n) ∧ (o.fa.allocContig n).2.bitmap = o.fa.bitmap
  used : o.fa.usedPages = o.fa.setBits.card

/-- The pages of a region that have a bit. -/
def Region.numbered (r : Region) : Finset Nat :=
  (Finset.range r.pages.toNat).filter fun j => (r.start >>> pageShift + UInt64.ofNat j).toNat < maxFrames

namespace MemMap

/-- How often the usable regions name a frame. -/
def named (mm : MemMap) : Nat := ((mm.regions.filter (·.kind.isUsable)).map fun r => r.numbered.card).sum

open Classical in
noncomputable def offered (mm : MemMap) : Finset Nat := (Finset.range maxFrames).filter mm.Offers

/-- Frame 0 is not offered, and the others are named once each and outside the kernel. -/
structure Exact (mm : MemMap) : Prop where
  first : ¬ mm.Offers 0
  once : mm.named = mm.offered.card

end MemMap

/-- Nobody frees frame 0. -/
def Owner.Spares (_ : Owner) : FrameOp → Prop
  | .free addr => pageSize ≤ addr.toNat
  | _ => True

/-! ## Calls -/

namespace BitmapFrameAllocator

theorem setBits_card_le (a : BitmapFrameAllocator) : a.setBits.card ≤ maxFrames := by
  have part := card_filter_le (Finset.range maxFrames) fun f => a.bitmap.testBit f = true
  rwa [card_range] at part

/-- While frame 0 is used no block is at address 0. -/
theorem Takes.address_ne {start n : Nat} (takes : Takes a a' (List.range' start n)) (some' : 0 < n)
    (zero : a.bitmap.testBit 0 = true) : start * pageSize ≠ 0 := by
  intro none'
  rcases Nat.mul_eq_zero.mp none' with rfl | no
  · have free := takes.free 0 (List.mem_range'_1.mpr ⟨le_rfl, by omega⟩)
    cases free.symm.trans zero
  · exact absurd no (by decide)

theorem Takes.setBits_card {start n : Nat} (takes : Takes a a' (List.range' start n)) (inside : start + n ≤ maxFrames) :
    a'.setBits.card = a.setBits.card + n := by
  have union : a'.setBits = a.setBits ∪ Finset.Ico start (start + n) := by
    ext f
    simp only [setBits, mem_filter, mem_range, mem_union, mem_Ico, takes.after,
      Bool.or_eq_true, decide_eq_true_eq, List.mem_range'_1]
    constructor
    · rintro ⟨low, used | new⟩
      · exact .inl ⟨low, used⟩
      · exact .inr new
    · rintro (⟨low, used⟩ | new)
      · exact ⟨low, .inl used⟩
      · exact ⟨by omega, .inr new⟩
  have apart : Disjoint a.setBits (Finset.Ico start (start + n)) := by
    refine disjoint_left.mpr fun f used new => ?_
    have free := takes.free f (List.mem_range'_1.mpr (mem_Ico.mp new))
    cases free.symm.trans (mem_filter.mp used).2
  rw [union, card_union_of_disjoint apart, Nat.card_Ico, Nat.add_sub_cancel_left]

theorem setBits_clearBit {idx : Nat} (inside : idx < maxFrames) (used : a.bitmap.testBit idx = true)
    (same : a'.bitmap = a.bitmap.clearBit idx) : a'.setBits.card + 1 = a.setBits.card := by
  have erased : a'.setBits = a.setBits.erase idx := by
    ext f
    simp only [setBits, same, mem_filter, mem_range, mem_erase, Bitmap.testBit_clearBit]
    simp only [Bool.and_eq_true, Bool.not_eq_true', decide_eq_false_iff_not]
    tauto
  rw [erased]
  exact card_erase_add_one (mem_filter.mpr ⟨mem_range.mpr inside, used⟩)

end BitmapFrameAllocator

/-! ## The invariant -/

structure Tally (o : Owner) : Prop where
  zero : o.fa.bitmap.testBit 0 = true
  used : o.fa.usedPages = o.fa.setBits.card

namespace Tally

variable {o : Owner}

theorem accounted (h : Tally o) : Accounted o where
  alloc := by
    intro failed
    rcases alloc_cases o.fa with ⟨nothing, full⟩ | ⟨idx, -, addr, takes, -⟩
    · rw [nothing]
      exact ⟨full, rfl⟩
    · exact absurd (addr.symm.trans failed) (Takes.address_ne
        (show Takes _ _ (List.range' idx 1) from takes) Nat.one_pos h.zero)
  allocContig := by
    intro n failed
    rcases allocContig_cases n o.fa with ⟨nothing, full⟩ | ⟨start, run, addr, takes, -⟩
    · rw [nothing]
      exact ⟨full, rfl⟩
    · exact absurd (addr.symm.trans failed) (takes.address_ne run.1 h.zero)
  used := h.used

theorem take (h : Tally o) {fa : BitmapFrameAllocator} {start n : Nat} {held : List Nat}
    (takes : Takes o.fa fa (List.range' start n)) (inside : start + n ≤ maxFrames)
    (counted : fa.framesUsed = o.fa.framesUsed + UInt64.ofNat n) : Tally ⟨fa, held⟩ where
  zero := by
    rw [takes.after, h.zero]
    rfl
  used := by
    have few := setBits_card_le o.fa
    have size : maxFrames = 65536 := rfl
    have used : o.fa.framesUsed.toNat = o.fa.setBits.card := h.used
    show fa.framesUsed.toNat = _
    rw [counted, takes.setBits_card inside, UInt64.toNat_add, UInt64.toNat_ofNat']
    omega

theorem free (h : Tally o) {addr : UInt64} (spared : pageSize ≤ addr.toNat) : Tally (o.step (.free addr)) := by
  have shifted : (addr >>> pageShift).toNat = addr.toNat / pageSize := by
    exact Nat.shiftRight_eq_div_pow _ 12
  have other : addr.toNat / pageSize ≠ 0 := Nat.pos_iff_ne_zero.mp (Nat.div_pos spared (by decide))
  rw [step]
  unfold BitmapFrameAllocator.free
  dsimp only
  rw [shifted]
  split
  next found =>
    simp only [Bool.and_eq_true, decide_eq_true_eq] at found
    have fewer := setBits_clearBit found.1 found.2
      (show ({ o.fa with bitmap := o.fa.bitmap.clearBit (addr.toNat / pageSize) } : BitmapFrameAllocator).bitmap = _
        from rfl)
    have few := setBits_card_le o.fa
    have size : maxFrames = 65536 := rfl
    have used : o.fa.framesUsed.toNat = o.fa.setBits.card := h.used
    refine ⟨?_, ?_⟩
    · show (o.fa.bitmap.clearBit _).testBit 0 = true
      simp [h.zero, other]
    · show (o.fa.framesUsed - 1).toNat = ({ o.fa with
        bitmap := o.fa.bitmap.clearBit (addr.toNat / pageSize) } : BitmapFrameAllocator).setBits.card
      rw [UInt64.toNat_sub, UInt64.toNat_one]
      omega
  · exact ⟨h.zero, h.used⟩

theorem step (h : Tally o) (op : FrameOp) (spares : o.Spares op) : Tally (o.step op) := by
  cases op with
  | alloc =>
    rcases alloc_cases o.fa with ⟨nothing, -⟩ | ⟨idx, inside, -, takes, counted⟩
    · rw [Owner.step, nothing]
      exact ⟨h.zero, h.used⟩
    · exact h.take (show Takes _ _ (List.range' idx 1) from takes) inside counted
  | allocContig n =>
    rcases allocContig_cases n o.fa with ⟨nothing, -⟩ | ⟨start, run, -, takes, counted⟩
    · rw [Owner.step, nothing]
      exact ⟨h.zero, h.used⟩
    · exact h.take takes run.2.1 counted
  | free addr => exact h.free spares

end Tally

/-! ## What `init` counts -/

namespace BitmapFrameAllocator

/-- `init` so far: the regions that were cleared are counted, and nothing else but the bitmap has changed. -/
structure Counts (a a' : BitmapFrameAllocator) (n : Nat) : Prop where
  total : a'.framesTotal = a.framesTotal
  hint : a'.nextHint = a.nextHint
  usable : a'.framesUsable = a.framesUsable + UInt64.ofNat n

theorem clearFrames_counts (first : UInt64) (n : Nat) (a : BitmapFrameAllocator) : Counts a (clearFrames first n a)
      ((Finset.range n).filter fun j => (first + UInt64.ofNat j).toNat < maxFrames).card := by
  induction n with
  | zero => exact ⟨rfl, rfl, by simp [clearFrames]⟩
  | succ n ih =>
    rw [clearFrames, range_add_one, filter_insert]
    split
    · refine ⟨ih.total, ih.hint, ?_⟩
      rw [card_insert_of_notMem (by simp), UInt64.ofNat_add, ← UInt64.add_assoc, ← ih.usable]
      rfl
    · exact ih

theorem clearRegions_counts (rs : List Region) (a : BitmapFrameAllocator) :
    Counts a (rs.foldl clearRegion a) ((rs.filter (·.kind.isUsable)).map fun r => r.numbered.card).sum := by
  induction rs generalizing a with
  | nil => exact ⟨rfl, rfl, by simp⟩
  | cons r rs ih =>
    have later := ih (a.clearRegion r)
    rw [List.foldl_cons, List.filter_cons]
    rw [clearRegion] at later ⊢
    split at later
    next usable =>
      have first := clearFrames_counts (r.start >>> pageShift) r.pages.toNat a
      rw [if_pos usable, if_pos usable]
      refine ⟨later.total.trans first.total, later.hint.trans first.hint, ?_⟩
      rw [later.usable, first.usable, List.map_cons, List.sum_cons, UInt64.ofNat_add, ← UInt64.add_assoc]
      rfl
    next unusable =>
      rw [if_neg unusable, if_neg unusable]
      exact later

end BitmapFrameAllocator

namespace MemMap

/-- The pages of a region have different frames. -/
theorem numbered_card_le (r : Region) : r.numbered.card ≤ maxFrames := by
  have into : r.numbered.card ≤ (Finset.range maxFrames).card := by
    refine card_le_card_of_injOn (fun j => (r.start >>> pageShift + UInt64.ofNat j).toNat) ?_ ?_
    · intro j member
      exact mem_coe.mpr (mem_range.mpr (mem_filter.mp member).2)
    · intro j first k second same
      have limit := r.pages.toNat_lt
      have first := mem_range.mp (mem_filter.mp first).1
      have second := mem_range.mp (mem_filter.mp second).1
      have same := congrArg UInt64.toNat ((UInt64.add_right_inj _).mp (UInt64.toNat_inj.mp same))
      rwa [UInt64.toNat_ofNat_of_lt' (first.trans limit), UInt64.toNat_ofNat_of_lt' (second.trans limit)] at same
  rwa [card_range] at into

theorem named_le (mm : MemMap) : mm.named ≤ maxRegions * maxFrames := by
  have each := List.sum_le_card_nsmul ((mm.regions.filter (·.kind.isUsable)).map fun r => r.numbered.card) maxFrames (by
    intro count member
    obtain ⟨r, -, rfl⟩ := List.mem_map.mp member
    exact numbered_card_le r)
  rw [List.length_map] at each
  exact each.trans (Nat.mul_le_mul_right _ ((List.length_filter_le _ _).trans mm.stored))

variable (mm : MemMap)

/-- At first the count is right exactly if frames are named as often as they are offered. -/
theorem boot_used_iff : (boot mm).fa.usedPages = (boot mm).fa.setBits.card ↔ mm.named = mm.offered.card := by
  have counted : (boot mm).fa.framesUsed = UInt64.ofNat maxFrames - UInt64.ofNat mm.named := by
    have counts := clearRegions_counts mm.regions { bitmap := fun _ => 0xFF, framesTotal := UInt64.ofNat maxFrames }
    have usable := counts.usable
    rw [UInt64.zero_add] at usable
    show _ - _ = _
    rw [counts.total, usable]
    rfl
  have split : (boot mm).fa.setBits.card + mm.offered.card = maxFrames := by
    have parts := card_filter_add_card_filter_not (s := Finset.range maxFrames)
      fun f => (boot mm).fa.bitmap.testBit f = true
    have same : mm.offered = (Finset.range maxFrames).filter fun f => ¬ (boot mm).fa.bitmap.testBit f = true := by
      ext f
      simp [offered, ← init_free mm {} f, boot]
    rw [card_range] at parts
    rw [same]
    exact parts
  have few := named_le mm
  have size : maxFrames = 65536 := rfl
  have rows : maxRegions = 32 := rfl
  unfold usedPages
  rw [counted, UInt64.toNat_sub, UInt64.toNat_ofNat', UInt64.toNat_ofNat']
  rw [rows] at few
  omega

/-- A map that offers frame 0 has it handed out first, at address 0. -/
theorem boot_not_accounted {mm : MemMap} (offers : mm.Offers 0) : ¬ Accounted (boot mm) := by
  intro accounted
  have free : (boot mm).fa.bitmap.testBit 0 = false := (init_free mm {} 0).mpr offers
  have hint : (boot mm).fa.nextHint = 0 := (clearRegions_counts mm.regions _).hint
  have found : (boot mm).fa.search maxFrames 0 = some 0 := by
    show BitmapFrameAllocator.search _ (65535 + 1) 0 = some 0
    rw [search, hint]
    simp [free]
  have zero : (boot mm).fa.alloc.1 = 0 := by
    unfold BitmapFrameAllocator.alloc
    rw [found]
    rfl
  have used := (accounted.alloc zero).1 0 (by decide)
  cases free.symm.trans used

end MemMap

/-- In every run in which frame 0 is not freed, calls fail only when they have to, a failed call leaves the
bitmap as it is and the count is right: exactly on maps that do not offer frame 0, and name the frames that
they offer, and only those, once each. -/
theorem accounted_iff (mm : MemMap) : (∀ ops, Along step Spares (boot mm) ops →
      Throughout step Accounted (boot mm) ops) ↔ mm.Exact := by
  constructor
  · intro always
    have first : Accounted (boot mm) := always [] trivial
    exact ⟨fun offers => mm.boot_not_accounted offers first, mm.boot_used_iff.mp first.used⟩
  · intro exact' ops spares
    have zero : (boot mm).fa.bitmap.testBit 0 = true := by
      by_contra free
      exact exact'.first ((init_free mm {} 0).mp (Bool.eq_false_iff.mpr free))
    have tally := Along.throughout Tally (fun o op h => h.step op) ⟨zero, mm.boot_used_iff.mpr exact'.once⟩ spares
    exact tally.mono fun o h => h.accounted

/-- One page of memory, the first. -/
def firstPage : MemMap := MemMap.empty.push ⟨0, 1, .conventionalMemory⟩

/-- Frame 0 is taken, and the call says that there was none. -/
theorem frame_zero_taken_as_failure : ¬ ∀ (mm : MemMap) (ops : List FrameOp),
    Throughout step Accounted (boot mm) ops := by
  intro always
  have offers : firstPage.Offers 0 := by
    refine ⟨by decide, ⟨⟨0, 1, .conventionalMemory⟩, List.mem_singleton.mpr rfl, rfl, 0, by decide, by decide⟩, ?_⟩
    rw [inKernel_iff]
    decide
  exact firstPage.boot_not_accounted offers (always firstPage [])

end BarryOS.Mem
