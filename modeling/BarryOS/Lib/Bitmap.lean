import Mathlib.Data.Nat.Bitwise

/-!
# Bitmaps

One bit per index, eight to an octet, lowest bit first. Setting or clearing a bit changes the
test of that index and of no other.
-/

namespace BarryOS.Lib

/-- The octets of a bitmap. -/
abbrev Bitmap := Nat → UInt8

namespace Bitmap

def setBit (b : Bitmap) (i : Nat) : Bitmap :=
  Function.update b (i / 8) (b (i / 8) ||| (1 <<< UInt8.ofNat (i % 8)))

def clearBit (b : Bitmap) (i : Nat) : Bitmap :=
  Function.update b (i / 8) (b (i / 8) &&& ~~~(1 <<< UInt8.ofNat (i % 8)))

def testBit (b : Bitmap) (i : Nat) : Bool :=
  (b (i / 8) >>> UInt8.ofNat (i % 8)) &&& 1 = 1

/-- Set `n` bits from `start` on, one after the other. -/
def setRange (b : Bitmap) (start : Nat) : Nat → Bitmap
  | 0 => b
  | n + 1 => setBit (setRange b start n) (start + n)

/-! ## One octet -/

theorem shiftRight_and_one (v : UInt8) {k : Nat} (h : k < 8) :
    (v >>> UInt8.ofNat k) &&& 1 = 1 ↔ v.toBitVec.getLsbD k = true := by
  rw [← UInt8.toNat_inj, ← BitVec.testBit_toNat, Nat.testBit]
  simp [Nat.mod_eq_of_lt h]

theorem mask_getLsbD {k j : Nat} (hk : k < 8) (hj : j < 8) :
    (1 <<< UInt8.ofNat k : UInt8).toBitVec.getLsbD j = decide (k = j) := by
  have all : ∀ k < 8, ∀ j < 8, (1 <<< UInt8.ofNat k : UInt8).toBitVec.getLsbD j = decide (k = j) := by decide
  exact all k hk j hj

variable (b : Bitmap)

theorem testBit_eq (i : Nat) : b.testBit i = (b (i / 8)).toBitVec.getLsbD (i % 8) := by
  unfold testBit
  rw [Bool.eq_iff_iff, decide_eq_true_iff]
  exact shiftRight_and_one _ (Nat.mod_lt _ (by decide))

/-! ## The whole map -/

/-- Two indices are one if they share the octet and the place in it. -/
theorem index_eq_iff {i j : Nat} (same : j / 8 = i / 8) : i % 8 = j % 8 ↔ i = j := by omega

@[simp] theorem testBit_setBit (i j : Nat) : (b.setBit i).testBit j = (b.testBit j || decide (i = j)) := by
  rw [testBit_eq, testBit_eq, setBit]
  by_cases same : j / 8 = i / 8
  · rw [same, Function.update_self, UInt8.toBitVec_or, BitVec.getLsbD_or,
      mask_getLsbD (Nat.mod_lt _ (by decide)) (Nat.mod_lt _ (by decide))]
    simp only [index_eq_iff same]
  have apart : i ≠ j := fun equal => same (by rw [equal])
  rw [Function.update_of_ne same]
  simp [apart]

@[simp] theorem testBit_clearBit (i j : Nat) : (b.clearBit i).testBit j = (b.testBit j && !decide (i = j)) := by
  rw [testBit_eq, testBit_eq, clearBit]
  by_cases same : j / 8 = i / 8
  · have low : j % 8 < 8 := Nat.mod_lt _ (by decide)
    rw [same, Function.update_self, UInt8.toBitVec_and, BitVec.getLsbD_and, UInt8.toBitVec_not, BitVec.getLsbD_not,
      mask_getLsbD (Nat.mod_lt _ (by decide)) low]
    simp only [index_eq_iff same, low, decide_true, Bool.true_and]
  have apart : i ≠ j := fun equal => same (by rw [equal])
  rw [Function.update_of_ne same]
  simp [apart]

@[simp] theorem testBit_setRange (start n j : Nat) :
    (b.setRange start n).testBit j = (b.testBit j || decide (start ≤ j ∧ j < start + n)) := by
  induction n with
  | zero =>
    simp [setRange]
  | succ n ih =>
    rw [setRange, testBit_setBit, ih, Bool.or_assoc]
    congr 1
    rw [← Bool.decide_or, decide_eq_decide]
    omega

theorem testBit_full (i : Nat) : testBit (fun _ => 0xFF) i = true := by
  have all : ∀ k < 8, (0xFF : UInt8).toBitVec.getLsbD k = true := by decide
  rw [testBit_eq]
  exact all _ (Nat.mod_lt _ (by decide))

end Bitmap

end BarryOS.Lib
