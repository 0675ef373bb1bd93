import Mathlib.Data.List.Nodup

/-!
# Chronicles

A log that only grows at its end, and what every entry of it meets in view of the entries
before it. `chronicle_snoc` is the step: a log with one more entry.
-/

namespace BarryOS.Lib

variable {α : Type}

/-- Every entry meets `Q` with what stood before it. -/
def Chronicle (Q : List α → α → Prop) (log : List α) : Prop :=
  ∀ earlier e later, log = earlier ++ e :: later → Q earlier e

variable {Q : List α → α → Prop} {log : List α}

theorem chronicle_nil : Chronicle Q [] := by
  intro earlier e later h
  simp at h

theorem chronicle_snoc (e : α) : Chronicle Q (log ++ [e]) ↔ Chronicle Q log ∧ Q log e := by
  constructor
  · intro h
    refine ⟨fun earlier x later split => ?_, h log e [] rfl⟩
    exact h earlier x (later ++ [e]) (by rw [split]; simp)
  · rintro ⟨h, last⟩ earlier x later split
    rcases List.eq_nil_or_concat later with rfl | ⟨later', y, rfl⟩
    · obtain ⟨rfl, same⟩ := List.append_inj' split rfl
      cases same
      exact last
    have split' : log ++ [e] = (earlier ++ x :: later') ++ [y] := by simpa using split
    obtain ⟨rfl, -⟩ := List.append_inj' split' rfl
    exact h earlier x later' rfl

theorem Chronicle.of_mem (h : Chronicle Q log) {e : α} (member : e ∈ log) :
    ∃ earlier later, log = earlier ++ e :: later ∧ Q earlier e := by
  obtain ⟨earlier, later, split⟩ := List.append_of_mem member
  exact ⟨earlier, later, split, h earlier e later split⟩

theorem Chronicle.earlier (h : Chronicle Q log) {earlier later : List α} {e : α}
    (split : log = earlier ++ e :: later) : Chronicle Q earlier := by
  intro first x rest inner
  exact h first x (rest ++ e :: later) (by rw [split, inner]; simp)

/-- Entry by entry, with what stands before its place. -/
theorem chronicle_iff_get : Chronicle Q log ↔ ∀ i : Fin log.length, Q (log.take i) (log.get i) := by
  constructor
  · intro h i
    refine h (log.take i) (log.get i) (log.drop (i + 1)) ?_
    rw [List.get_eq_getElem, ← List.drop_eq_getElem_cons i.isLt, List.take_append_drop]
  · rintro h earlier e later rfl
    have here := h ⟨earlier.length, by simp⟩
    simpa using here

instance [∀ earlier e, Decidable (Q earlier e)] : Decidable (Chronicle Q log) :=
  decidable_of_iff _ chronicle_iff_get.symm

/-! ## Numbers given out in order -/

variable {β : Type}

/-- Entry `i` carries the tag of the `i`-th number from `base`. -/
def Counted (tag : UInt32 → β) (base : UInt32) (xs : List β) : Prop :=
  ∀ i (h : i < xs.length), xs[i] = tag (base + UInt32.ofNat i)

variable {tag : UInt32 → β} {base : UInt32} {xs : List β}

theorem counted_nil : Counted tag base [] := by
  intro i h
  cases h

theorem Counted.snoc (h : Counted tag base xs) : Counted tag base (xs ++ [tag (base + UInt32.ofNat xs.length)]) := by
  intro i inside
  rcases Nat.lt_or_ge i xs.length with earlier | last
  · rw [List.getElem_append_left earlier]
    exact h i earlier
  obtain rfl : i = xs.length := by
    rw [List.length_append, List.length_singleton] at inside
    omega
  simp

theorem Counted.nodup (injective : Function.Injective tag) (h : Counted tag base xs)
    (few : xs.length ≤ 4294967296) : xs.Nodup := by
  rw [List.nodup_iff_injective_getElem]
  intro i j same
  have place := i.isLt
  have place' := j.isLt
  dsimp only at same
  rw [h i place, h j place'] at same
  have numbers := congrArg UInt32.toNat (UInt32.add_right_inj base |>.mp (injective same))
  rw [UInt32.toNat_ofNat', UInt32.toNat_ofNat', Nat.mod_eq_of_lt (by omega), Nat.mod_eq_of_lt (by omega)] at numbers
  exact Fin.ext numbers

end BarryOS.Lib
