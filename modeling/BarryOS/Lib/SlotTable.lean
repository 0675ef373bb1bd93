import Mathlib.Data.List.Basic

/-!
# A table of keyed records

A fixed array of records, searched from the front by key. One key marks a free
slot. The table behaves as a finite map from the other keys to records: the three
updates a program makes of it (change a record in place, fill a free slot, free a
slot) are a map update, an insertion and a removal. The removal, and only the
removal, needs the keys in use to be distinct.
-/

namespace BarryOS.Lib

open List

variable {α κ : Type} [DecidableEq κ] (key : α → κ)

/-- The first slot with this key. -/
def slotOf (k : κ) (l : List α) : Option Nat := l.findIdx? fun a => key a = k

/-- The record in it. -/
def recordOf (k : κ) (l : List α) : Option α := l.find? fun a => key a = k

/-- No key but the free one is in the table twice. -/
def DistinctKeys (free : κ) (l : List α) : Prop :=
  l.Pairwise fun a b => key a = free ∨ key a ≠ key b

variable {key}

theorem recordOf_cons (k : κ) (a : α) (l : List α) :
    recordOf key k (a :: l) = if key a = k then some a else recordOf key k l := by
  by_cases h : key a = k <;> simp [recordOf, h]

theorem recordOf_append (k : κ) (l m : List α) :
    recordOf key k (l ++ m) = (recordOf key k l).or (recordOf key k m) := find?_append

variable {l : List α} {k : κ} {a : α}

theorem recordOf_key (h : recordOf key k l = some a) : key a = k := by
  simpa using find?_some h

theorem recordOf_mem (h : recordOf key k l = some a) : a ∈ l :=
  mem_of_find?_eq_some h

theorem recordOf_eq_none : recordOf key k l = none ↔ ∀ a ∈ l, key a ≠ k := by
  simp [recordOf]

variable {i : Nat}

/-- What stands before a slot that is found has other keys. -/
theorem slotOf_split (h : slotOf key k l = some i) : ∃ before a after,
    l = before ++ a :: after ∧ i = before.length ∧ key a = k ∧ recordOf key k before = none := by
  obtain ⟨inside, here, first⟩ := findIdx?_eq_some_iff_getElem.mp h
  refine ⟨l.take i, l[i], l.drop (i + 1), by simp, ?_, by simpa using here, recordOf_eq_none.mpr fun a member => ?_⟩
  · rw [length_take, Nat.min_eq_left (Nat.le_of_lt inside)]
  · obtain ⟨j, hj, rfl⟩ := mem_take_iff_getElem.mp member
    simpa using first j (by omega)

theorem set_split (before after : List α) (a v : α) :
    (before ++ a :: after).set before.length v = before ++ v :: after := by
  simp

/-- A slot that is found is in the table and holds the record. -/
theorem slotOf_some (h : slotOf key k l = some i) : ∃ a, l[i]? = some a ∧ key a = k ∧ recordOf key k l = some a := by
  obtain ⟨before, a, after, rfl, rfl, ha, first⟩ := slotOf_split h
  exact ⟨a, by simp, ha, by rw [recordOf_append, first, recordOf_cons, if_pos ha, Option.none_or]⟩

theorem slotOf_isSome (h : recordOf key k l = some a) : ∃ i, slotOf key k l = some i ∧ l[i]? = some a := by
  cases hs : slotOf key k l with
  | none =>
    have absent := findIdx?_eq_none_iff.mp hs
    have := absent a (recordOf_mem h)
    simp [recordOf_key h] at this
  | some i =>
    obtain ⟨b, get, _, found⟩ := slotOf_some hs
    cases found.symm.trans h
    exact ⟨i, rfl, get⟩

variable {v : α}

/-- Change a record in place. -/
theorem recordOf_set (h : slotOf key k l = some i) (hv : key v = k) (j : κ) :
    recordOf key j (l.set i v) = if j = k then some v else recordOf key j l := by
  obtain ⟨before, a, after, rfl, rfl, ha, first⟩ := slotOf_split h
  rw [set_split, recordOf_append, recordOf_append, recordOf_cons, recordOf_cons, hv, ha]
  by_cases same : j = k
  · simp [same, first]
  · simp [same, Ne.symm same]

variable {free : κ}

/-- Fill a free slot with a new key. -/
theorem recordOf_set_new
    (h : slotOf key free l = some i) (hv : key v = k) (new : recordOf key k l = none) (j : κ) (hj : j ≠ free) :
    recordOf key j (l.set i v) = if j = k then some v else recordOf key j l := by
  obtain ⟨before, a, after, rfl, rfl, ha, -⟩ := slotOf_split h
  rw [recordOf_append, Option.or_eq_none_iff] at new
  rw [set_split, recordOf_append, recordOf_append, recordOf_cons, recordOf_cons, hv, ha, if_neg (Ne.symm hj)]
  by_cases same : j = k
  · simp [same, new.1]
  · simp [same, Ne.symm same]

/-- Free the slot of a key. -/
theorem recordOf_set_free (distinct : DistinctKeys key free l) (h : slotOf key k l = some i) (hk : k ≠ free)
    (hv : key v = free) (j : κ) (hj : j ≠ free) :
    recordOf key j (l.set i v) = if j = k then none else recordOf key j l := by
  obtain ⟨before, a, after, rfl, rfl, ha, first⟩ := slotOf_split h
  have apart := (pairwise_cons.mp (pairwise_append.mp distinct).2.1).1
  rw [set_split, recordOf_append, recordOf_append, recordOf_cons, recordOf_cons, hv, ha, if_neg (Ne.symm hj)]
  by_cases same : j = k
  · subst same
    have none : recordOf key j after = none := by
      rw [recordOf_eq_none]
      intro b hb same
      exact (apart b hb).elim (fun isFree => hk (ha.symm.trans isFree)) fun other => other (ha.trans same.symm)
    simp [first, none]
  · simp [same, Ne.symm same]

/-- A write to a slot keeps the keys distinct when no other slot has the new key. -/
theorem DistinctKeys.set (h : DistinctKeys key free l) (i : Nat) (v : α)
    (new : key v = free ∨ ∀ j a, j ≠ i → l[j]? = some a → key a ≠ key v) : DistinctKeys key free (l.set i v) := by
  unfold DistinctKeys at h ⊢
  rw [pairwise_iff_getElem] at h ⊢
  intro p q hp hq lt
  rw [length_set] at hp hq
  have old := h p q hp hq lt
  rw [getElem_set, getElem_set]
  by_cases atP : i = p
  · subst atP
    rw [if_pos rfl, if_neg (by omega)]
    rcases new with isFree | new
    · exact .inl isFree
    · exact .inr (Ne.symm (new q _ (by omega) (getElem?_eq_getElem hq)))
  rw [if_neg atP]
  by_cases atQ : i = q
  · subst atQ
    rw [if_pos rfl]
    rcases new with isFree | new
    · by_cases pFree : key l[p] = free
      · exact .inl pFree
      · exact .inr (by rw [isFree]; exact pFree)
    · exact .inr (new p _ (by omega) (getElem?_eq_getElem hp))
  · rw [if_neg atQ]
    exact old

theorem DistinctKeys.set_same (h : DistinctKeys key free l)
    (hs : slotOf key k l = some i) (hk : k ≠ free) (hv : key v = k) : DistinctKeys key free (l.set i v) := by
  obtain ⟨b, get, hb, _⟩ := slotOf_some hs
  obtain ⟨hi, rfl⟩ := List.getElem?_eq_some_iff.mp get
  refine h.set i v (.inr ?_)
  intro j a other ha same
  obtain ⟨hj, rfl⟩ := List.getElem?_eq_some_iff.mp ha
  unfold DistinctKeys at h
  rw [pairwise_iff_getElem] at h
  rw [hv] at same
  rcases Nat.lt_or_gt_of_ne other with lt | lt
  · rcases h j i hj hi lt with e | e
    · exact hk (same.symm.trans e)
    · exact e (same.trans hb.symm)
  rcases h i j hi hj lt with e | e
  · exact hk (hb.symm.trans e)
  · exact e (hb.trans same.symm)

/-- With distinct keys a used record is the one found under its key. -/
theorem recordOf_of_mem (distinct : DistinctKeys key free l)
    (ha : a ∈ l) (used : key a ≠ free) : recordOf key (key a) l = some a := by
  induction l with
  | nil => simp at ha
  | cons b l ih =>
    obtain ⟨first, rest⟩ := pairwise_cons.mp distinct
    rw [recordOf_cons]
    rcases mem_cons.mp ha with rfl | ha
    · rw [if_pos rfl]
    split
    next same =>
      have apart := (first a ha).resolve_left (by rw [same]; exact used)
      exact absurd same apart
    · exact ih rest ha

end BarryOS.Lib
