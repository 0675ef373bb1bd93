import Mathlib.Data.List.Basic

/-!
# Passes over an arena

A pass goes through the indices of an arena in order and pushes one value for each,
computed from the value of its parent, which it looks up among those it has pushed. It
ends with a value for every index, derived from the final value of its parent, exactly
if every parent comes before its children and no computation fails on its own
(`pass_derived`, `pass_ok`).

The first section has the rules for computations in `Except` that this and its users need.
-/

namespace BarryOS.Lib

open List

variable {ε α β : Type} {f : α → Except ε β}

section Except

theorem bind_eq_ok {x : Except ε α} {b : β} : (x >>= f) = .ok b ↔ ∃ a, x = .ok a ∧ f a = .ok b := by
  cases x with
  | error e =>
    constructor
    · intro h
      cases h
    · rintro ⟨_, h, _⟩
      cases h
  | ok a =>
    constructor
    · exact fun h => ⟨a, rfl, h⟩
    · rintro ⟨_, h, result⟩
      cases h
      exact result

/-- A loop whose body fails by the element alone. -/
theorem foldlM_ok_iff {f : β → α → Except ε β} {good : α → Prop}
    (body : ∀ s a, (∃ s', f s a = .ok s') ↔ good a) (s : β) (l : List α) :
    (∃ s', l.foldlM f s = .ok s') ↔ ∀ a ∈ l, good a := by
  induction l generalizing s with
  | nil => exact iff_of_true ⟨s, rfl⟩ (fun _ h => absurd h not_mem_nil)
  | cons a l ih =>
    rw [forall_mem_cons]
    constructor
    · rintro ⟨s', result⟩
      obtain ⟨next, first, rest⟩ := bind_eq_ok.mp result
      exact ⟨(body s a).mp ⟨next, first⟩, (ih next).mp ⟨s', rest⟩⟩
    · rintro ⟨here, rest⟩
      obtain ⟨next, first⟩ := (body s a).mpr here
      obtain ⟨s', last⟩ := (ih next).mpr rest
      exact ⟨s', bind_eq_ok.mpr ⟨next, first, last⟩⟩

variable {l : List α}

theorem mapM_cons_eq_ok {a : α} {r : List β} :
    (a :: l).mapM f = .ok r ↔ ∃ b bs, f a = .ok b ∧ l.mapM f = .ok bs ∧ r = b :: bs := by
  rw [mapM_cons, bind_eq_ok]
  constructor
  · rintro ⟨b, first, rest⟩
    obtain ⟨bs, others, last⟩ := bind_eq_ok.mp rest
    exact ⟨b, bs, first, others, (Except.ok.inj last).symm⟩
  · rintro ⟨b, bs, first, others, rfl⟩
    exact ⟨b, first, bind_eq_ok.mpr ⟨bs, others, rfl⟩⟩

theorem mapM_ok_iff : (∃ r, l.mapM f = .ok r) ↔ ∀ a ∈ l, ∃ b, f a = .ok b := by
  induction l with
  | nil => exact iff_of_true ⟨[], rfl⟩ (fun _ h => absurd h not_mem_nil)
  | cons a l ih =>
    rw [forall_mem_cons, ← ih]
    constructor
    · rintro ⟨r, result⟩
      obtain ⟨b, bs, first, others, _⟩ := mapM_cons_eq_ok.mp result
      exact ⟨⟨b, first⟩, ⟨bs, others⟩⟩
    · rintro ⟨⟨b, first⟩, ⟨bs, others⟩⟩
      exact ⟨b :: bs, mapM_cons_eq_ok.mpr ⟨b, bs, first, others, rfl⟩⟩

theorem mem_mapM {r : List β} (h : l.mapM f = .ok r) {b : β} : b ∈ r ↔ ∃ a ∈ l, f a = .ok b := by
  induction l generalizing r with
  | nil =>
    obtain rfl : [] = r := Except.ok.inj h
    simp
  | cons a l ih =>
    obtain ⟨b', bs, first, others, rfl⟩ := mapM_cons_eq_ok.mp h
    rw [mem_cons, ih others, exists_mem_cons_iff, first, Except.ok.injEq]
    exact or_congr_left eq_comm

end Except

variable {out : List α}

namespace TopDown

variable (up : Nat → Option Nat) (start : α) (missing : ε) (f : Nat → α → Except ε α)

/-- The value a child starts from. -/
def inherited (out : List α) (i : Nat) : Except ε α :=
  match up i with
  | none => .ok start
  | some p =>
    match out[p]? with
    | some a => .ok a
    | none => .error missing

def pass (n : Nat) : Except ε (List α) :=
  (range n).foldlM (fun out i => do
      let a ← inherited up start missing out i
      return out ++ [← f i a]) []

/-- The value of `i`'s parent in `out` is `a`. -/
def FromParent (out : List α) (i : Nat) (a : α) : Prop :=
  match up i with
  | none => a = start
  | some p => out[p]? = some a

/-- Every index below `n` has a value, and it is what `f` makes of its parent's value. -/
structure Derived (n : Nat) (out : List α) : Prop where
  length : out.length = n
  value : ∀ i < n, ∃ a b, FromParent up start out i a ∧ f i a = .ok b ∧ out[i]? = some b

variable {up start missing f}

theorem inherited_eq_ok {i : Nat} {a : α} : inherited up start missing out i = .ok a ↔ FromParent up start out i a := by
  unfold inherited FromParent
  split
  · exact ⟨fun h => (Except.ok.inj h).symm, fun h => h ▸ rfl⟩
  split
  next p b found =>
    rw [found]
    exact ⟨fun h => congrArg some (Except.ok.inj h), fun h => congrArg Except.ok (Option.some.inj h)⟩
  rename_i p absent
  rw [absent]
  exact iff_of_false (fun h => nomatch h) (fun h => nomatch h)

variable {n : Nat}

theorem pass_succ_eq_ok :
    pass up start missing f (n + 1) = .ok out ↔ ∃ before a b, pass up start missing f n = .ok before ∧
      FromParent up start before n a ∧ f n a = .ok b ∧ out = before ++ [b] := by
  rw [pass, range_succ, foldlM_append]
  simp only [foldlM_cons, bind_eq_ok, inherited_eq_ok]
  constructor
  · rintro ⟨before, earlier, out', ⟨a, parent, b, value, e⟩, last⟩
    refine ⟨before, a, b, earlier, parent, value, ?_⟩
    rw [← Except.ok.inj last, ← Except.ok.inj e]
  · rintro ⟨before, a, b, earlier, parent, value, rfl⟩
    exact ⟨before, earlier, before ++ [b], ⟨a, parent, b, value, rfl⟩, rfl⟩

theorem FromParent.append {i : Nat} {a : α} (h : FromParent up start out i a) (b : α) :
    FromParent up start (out ++ [b]) i a := by
  unfold FromParent at h ⊢
  split at h
  · exact h
  rw [List.getElem?_append_left (List.getElem?_eq_some_iff.mp h).1]
  exact h

/-- What a pass that ends has computed. -/
theorem pass_derived (h : pass up start missing f n = .ok out) :
    Derived up start f n out ∧ ∀ i < n, ∀ p, up i = some p → p < i := by
  induction n generalizing out with
  | zero =>
    obtain rfl : [] = out := Except.ok.inj h
    exact ⟨⟨rfl, fun i lt => absurd lt (Nat.not_lt_zero i)⟩, fun i lt => absurd lt (Nat.not_lt_zero i)⟩
  | succ n ih =>
    obtain ⟨before, a, b, earlier, parent, value, rfl⟩ := pass_succ_eq_ok.mp h
    obtain ⟨⟨length, derived⟩, ordered⟩ := ih earlier
    refine ⟨⟨by rw [length_append, length]; rfl, ?_⟩, ?_⟩
    · intro i lt
      rcases Nat.lt_succ_iff_lt_or_eq.mp lt with below | rfl
      · obtain ⟨a', b', parent', value', at'⟩ := derived i below
        refine ⟨a', b', parent'.append b, value', ?_⟩
        rw [getElem?_append_left (length ▸ below)]
        exact at'
      refine ⟨a, b, parent.append b, value, ?_⟩
      rw [← length]
      exact getElem?_concat_length
    · intro i lt p isParent
      rcases Nat.lt_succ_iff_lt_or_eq.mp lt with below | rfl
      · exact ordered i below p isParent
      unfold FromParent at parent
      rw [isParent] at parent
      exact length ▸ (List.getElem?_eq_some_iff.mp parent).1

/-- A pass in which parents come first and no computation fails ends. -/
theorem pass_ok (ordered : ∀ i < n, ∀ p, up i = some p → p < i)
    (succeeds : ∀ i < n, ∀ a, ∃ b, f i a = .ok b) : ∃ out, pass up start missing f n = .ok out := by
  induction n with
  | zero => exact ⟨[], rfl⟩
  | succ n ih =>
    obtain ⟨before, earlier⟩ :=
      ih (fun i lt => ordered i (Nat.lt_succ_of_lt lt)) (fun i lt => succeeds i (Nat.lt_succ_of_lt lt))
    have length := (pass_derived earlier).1.length
    have found : ∃ a, FromParent up start before n a := by
      unfold FromParent
      cases isParent : up n with
      | none => exact ⟨start, rfl⟩
      | some p =>
        have lt := ordered n (Nat.lt_succ_self n) p isParent
        exact ⟨before[p], getElem?_eq_getElem (length.symm ▸ lt)⟩
    obtain ⟨a, parent⟩ := found
    obtain ⟨b, value⟩ := succeeds n (Nat.lt_succ_self n) a
    exact ⟨before ++ [b], pass_succ_eq_ok.mpr ⟨before, a, b, earlier, parent, value, rfl⟩⟩

end TopDown

end BarryOS.Lib
