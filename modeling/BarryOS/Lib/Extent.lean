import Mathlib.Algebra.Ring.Nat
import Mathlib.Data.List.Perm.Basic

/-!
# Extents

Runs of cells in a flat store. Two extents are apart when they share no cell; a part
of an extent is apart from whatever the whole is apart from. `swapRemove` drops an
entry of a list by moving the last one into its place, as unordered free lists do.
-/

namespace BarryOS.Lib

open List

structure Extent where
  off : Nat
  size : Nat
  deriving DecidableEq, Repr

namespace Extent

def Has (e : Extent) (x : Nat) : Prop := e.off ≤ x ∧ x < e.off + e.size

def Apart (a b : Extent) : Prop := ∀ x, ¬ (a.Has x ∧ b.Has x)

def Inside (a b : Extent) : Prop := ∀ x, a.Has x → b.Has x

theorem Apart.symm {a b : Extent} (h : Apart a b) : Apart b a :=
  fun x both => h x ⟨both.2, both.1⟩

theorem Apart.inside {a b c : Extent} (h : Apart a b) (part : Inside c b) : Apart a c :=
  fun x both => h x ⟨both.1, part x both.2⟩

/-- A non-empty part lies within the bounds of the whole. -/
theorem Inside.bounds {a b : Extent} (h : Inside a b) (nonempty : 0 < a.size) :
    b.off ≤ a.off ∧ a.off + a.size ≤ b.off + b.size := by
  have first := h a.off ⟨le_rfl, by omega⟩
  have last := h (a.off + a.size - 1) ⟨by omega, by omega⟩
  unfold Has at first last
  omega

theorem apart_of_le {a b : Extent} (h : a.off + a.size ≤ b.off) : Apart a b := by
  rintro x ⟨⟨_, lt⟩, le, _⟩
  omega

/-- Extents that are apart and not empty lie one after the other. -/
theorem Apart.ordered {a b : Extent} (h : Apart a b) (ha : 0 < a.size) (hb : 0 < b.size) :
    a.off + a.size ≤ b.off ∨ b.off + b.size ≤ a.off := by
  by_contra both
  have cell := h (max a.off b.off)
  unfold Has at cell
  omega

end Extent

variable {α : Type}

/-- Drop entry `i` by moving the last entry into its place. -/
def swapRemove (l : List α) (i : Nat) : List α :=
  match l.getLast? with
  | none => l
  | some last => (l.set i last).dropLast

theorem set_perm {l : List α} {i : Nat} (h : i < l.length) (x : α) : (l.set i x).Perm (x :: l.eraseIdx i) := by
  have set := getElem_cons_eraseIdx_perm (l := l.set i x) (n := i) (by simpa using h)
  simpa [eraseIdx_set_eq] using set.symm

theorem swapRemove_perm {l : List α} {i : Nat} (h : i < l.length) : l.Perm (l[i] :: swapRemove l i) := by
  obtain ⟨front, last, rfl⟩ : ∃ front last, l = front ++ [last] := by
    have nonempty : l ≠ [] := length_pos_iff.mp (by omega)
    exact ⟨l.dropLast, l.getLast nonempty, (dropLast_append_getLast nonempty).symm⟩
  simp only [swapRemove, List.getLast?_append, List.getLast?_singleton, Option.some_or]
  by_cases isLast : i = front.length
  · subst isLast
    simp
  have inFront : i < front.length := by
    simp only [length_append, length_singleton] at h
    omega
  rw [set_append_left _ _ inFront, dropLast_concat, getElem_append_left inFront]
  obtain ⟨before, x, after, split, rfl⟩ : ∃ before x after, front = before ++ x :: after ∧ i = before.length :=
    ⟨front.take i, front[i], front.drop (i + 1), by simp, by simp; omega⟩
  subst split
  simp only [getElem_append_right le_rfl, Nat.sub_self, set_append_right _ _ le_rfl]
  have moved : (after ++ [last]).Perm (last :: after) := perm_append_singleton last after
  rw [append_assoc]
  exact ((moved.cons x).append_left before).trans perm_middle

end BarryOS.Lib
