import Mathlib.Data.List.Basic

/-!
# Flat memory

Byte-at-a-time stores into, and loads from, a flat buffer, and the same for a ring. What makes
a ring a queue: what is written is read (`ringRead_write`), and a window that shares no cell
with it is not disturbed (`ringRead_write_frame`).
-/

namespace BarryOS.Lib

open List

variable {α : Type}

/-- Store the bytes one by one from `pos` on. -/
def storeBytes (buf : Nat → α) (pos : Nat) : List α → Nat → α
  | [] => buf
  | b :: bs => storeBytes (Function.update buf pos b) (pos + 1) bs

/-- Load `n` bytes from `pos` on. -/
def loadBytes (buf : Nat → α) (pos n : Nat) : List α :=
  (List.range n).map fun i => buf (pos + i)

variable (buf : Nat → α)

@[simp] theorem loadBytes_length (pos n : Nat) : (loadBytes buf pos n).length = n := by
  simp [loadBytes]

@[simp] theorem loadBytes_zero (pos : Nat) : loadBytes buf pos 0 = [] := rfl

@[simp] theorem loadBytes_getElem (pos n i : Nat)
    (h : i < (loadBytes buf pos n).length) : (loadBytes buf pos n)[i] = buf (pos + i) := by
  simp [loadBytes]

theorem loadBytes_take (pos n k : Nat) : (loadBytes buf pos n).take k = loadBytes buf pos (min k n) := by
  rw [loadBytes, loadBytes, ← map_take, take_range]

theorem loadBytes_drop (pos n k : Nat) : (loadBytes buf pos n).drop k = loadBytes buf (pos + k) (n - k) := by
  apply ext_getElem
  · simp
  · intro i _ _
    simp [Nat.add_assoc]

section

variable (bs : List α) (buf : Nat → α)

theorem storeBytes_outside (pos j : Nat)
    (outside : j < pos ∨ pos + bs.length ≤ j) : storeBytes buf pos bs j = buf j := by
  induction bs generalizing buf pos with
  | nil => rfl
  | cons b bs ih =>
    rw [length_cons] at outside
    rw [storeBytes, ih _ _ (by omega), Function.update_of_ne (by omega)]

theorem loadBytes_store (pos : Nat) : loadBytes (storeBytes buf pos bs) pos bs.length = bs := by
  induction bs generalizing buf pos with
  | nil => rfl
  | cons b bs ih =>
    have first : storeBytes (Function.update buf pos b) (pos + 1) bs pos = b := by
      rw [storeBytes_outside _ _ _ _ (.inl (Nat.lt_succ_self pos)), Function.update_self]
    have rest := ih (Function.update buf pos b) (pos + 1)
    simp only [loadBytes, storeBytes, length_cons, range_succ_eq_map, map_cons, map_map] at rest ⊢
    congr 1
    refine Eq.trans ?_ rest
    apply map_congr_left
    intro i _
    simp [Nat.add_assoc, Nat.add_comm 1 i]

theorem storeBytes_inside (pos k : Nat) (h : k < bs.length) : storeBytes buf pos bs (pos + k) = bs[k] := by
  have whole := loadBytes_store bs buf pos
  have here : (loadBytes (storeBytes buf pos bs) pos bs.length)[k]? = bs[k]? := by rw [whole]
  simpa [h] using here

theorem loadBytes_store_part (pos k n : Nat) (inside : k + n ≤ bs.length) :
    loadBytes (storeBytes buf pos bs) (pos + k) n = (bs.drop k).take n := by
  have whole := loadBytes_store bs buf pos
  conv_rhs => rw [← whole, loadBytes_drop, loadBytes_take, Nat.min_eq_left (by omega)]

end

theorem loadBytes_add (pos n k : Nat) :
    loadBytes buf pos (n + k) = loadBytes buf pos n ++ loadBytes buf (pos + n) k := by
  unfold loadBytes
  rw [range_add, map_append]
  simp [Nat.add_assoc]

/-- A load that does not overlap the stored range is not disturbed. -/
theorem loadBytes_store_frame (bs : List α) (buf : Nat → α) (pos at' n : Nat)
    (apart : at' + n ≤ pos ∨ pos + bs.length ≤ at') :
    loadBytes (storeBytes buf pos bs) at' n = loadBytes buf at' n := by
  apply map_congr_left
  intro i hi
  have hi := mem_range.mp hi
  exact storeBytes_outside bs buf pos (at' + i) (by omega)

/-! ## A byte ring

Positions are free-running counters; the cell of position `at` is `at % cap`. -/

section Ring

/-- Store the bytes one by one, each in the cell of its own position. -/
def ringWrite (cap : Nat) (buf : Nat → α) (pos : Nat) : List α → Nat → α
  | [] => buf
  | b :: bs => ringWrite cap (Function.update buf (pos % cap) b) (pos + 1) bs

/-- Read `n` cells starting at the cell of `pos`. -/
def ringRead (cap : Nat) (buf : Nat → α) (pos n : Nat) : List α :=
  (List.range n).map fun i => buf ((pos + i) % cap)

variable (cap : Nat) (buf : Nat → α)

@[simp] theorem ringRead_length (pos n : Nat) : (ringRead cap buf pos n).length = n := by
  simp [ringRead]

@[simp] theorem ringRead_zero (pos : Nat) : ringRead cap buf pos 0 = [] := rfl

theorem ringRead_succ (pos n : Nat) :
    ringRead cap buf pos (n + 1) = buf (pos % cap) :: ringRead cap buf (pos + 1) n := by
  simp only [ringRead, range_succ_eq_map, map_cons, map_map]
  congr 1
  apply map_congr_left
  intro i _
  simp [Nat.add_assoc, Nat.add_comm 1 i]

/-- Only the residue of a position matters, so a counter may wrap at a multiple
of the capacity. -/
theorem ringRead_mod (pos n : Nat) : ringRead cap buf (pos % cap) n = ringRead cap buf pos n := by
  simp [ringRead]

theorem ringWrite_mod (pos : Nat) (bs : List α) : ringWrite cap buf (pos % cap) bs = ringWrite cap buf pos bs := by
  induction bs generalizing buf pos with
  | nil => rfl
  | cons b bs ih =>
    simp only [ringWrite, Nat.mod_mod]
    rw [← ih _ (pos % cap + 1), Nat.mod_add_mod, ih]

variable (bs : List α)

/-- A cell that no written position falls on keeps its byte. -/
theorem ringWrite_other (buf : Nat → α) (pos cell : Nat)
    (other : ∀ i, i < bs.length → (pos + i) % cap ≠ cell) : ringWrite cap buf pos bs cell = buf cell := by
  induction bs generalizing buf pos with
  | nil => rfl
  | cons b bs ih =>
    rw [ringWrite, ih]
    · have first := other 0 (by simp)
      exact Function.update_of_ne (Ne.symm first) _ _
    · intro i hi
      have := other (i + 1) (by simpa using hi)
      rwa [show pos + 1 + i = pos + (i + 1) by omega]

theorem mod_ne_of_near {cap a b : Nat} (lt : a < b) (near : b < a + cap) : b % cap ≠ a % cap := by
  intro h
  have hd : (b - a) % cap = 0 := Nat.sub_mod_eq_zero_of_mod_eq h
  rw [Nat.mod_eq_of_lt (by omega)] at hd
  omega

/-- Reading back a write that is no longer than the ring. -/
theorem ringRead_write (buf : Nat → α) (pos : Nat) (fits : bs.length ≤ cap) :
    ringRead cap (ringWrite cap buf pos bs) pos bs.length = bs := by
  induction bs generalizing buf pos with
  | nil => rfl
  | cons b bs ih =>
    simp only [length_cons] at fits
    rw [length_cons, ringRead_succ, ringWrite, ih _ _ (by omega)]
    rw [ringWrite_other]
    · simp
    · intro i hi
      exact mod_ne_of_near (by omega) (by omega)

/-- A window that ends where the write begins keeps its bytes, as long as the two
together are no longer than the ring. -/
theorem ringRead_write_frame (buf : Nat → α) (pos n : Nat) (fits : n + bs.length ≤ cap) :
    ringRead cap (ringWrite cap buf (pos + n) bs) pos n = ringRead cap buf pos n := by
  apply map_congr_left
  intro i hi
  have hin := mem_range.mp hi
  rw [ringWrite_other]
  intro k hk
  exact mod_ne_of_near (by omega) (by omega)

theorem ringRead_add (pos m n : Nat) :
    ringRead cap buf pos (m + n) = ringRead cap buf pos m ++ ringRead cap buf (pos + m) n := by
  simp [ringRead, range_add, Nat.add_assoc]

theorem ringRead_take (pos m n : Nat) : (ringRead cap buf pos n).take m = ringRead cap buf pos (min n m) := by
  rw [ringRead, ← map_take, take_range, Nat.min_comm, ringRead]

end Ring

end BarryOS.Lib
