import BarryOS.Lib.Extent

/-!
# Page frames (mem/frame_alloc.rs)

One bit per frame of 4 KiB. `alloc_contig` takes the first run of free frames that is long
enough.
-/

namespace BarryOS.Mem

open Lib

def pageSize : Nat := 4096

/-- `BITMAP_BYTES * 8`. -/
def maxFrames : Nat := 8 * 1024 * 8

/-- The bitmap and the two counters that an allocation touches. -/
structure Frames where
  used : Nat → Bool
  framesUsed : Nat := 0
  nextHint : Nat := 0

namespace Frames

/-- The scan of `alloc_contig`: `left` frames to go from frame `i`, behind `run` free ones from `start` on. -/
def scan (f : Frames) (n : Nat) : (left i run start : Nat) → Option Nat
  | 0, _, _, _ => none
  | left + 1, i, run, start =>
    if f.used i then scan f n left (i + 1) 0 start
    else
      let start := if run = 0 then i else start
      if run + 1 = n then some start else scan f n left (i + 1) (run + 1) start

def take (start n : Nat) (f : Frames) : Frames where
  used := fun i => f.used i || (decide (start ≤ i) && decide (i < start + n))
  framesUsed := f.framesUsed + n
  nextHint := (start + n) % maxFrames

/-- Allocate `n` contiguous frames. Returns physical address or 0. -/
def allocContig (n : Nat) (f : Frames) : Nat × Frames :=
  if n = 0 then (0, f)
  else
    match f.scan n maxFrames 0 0 0 with
    | none => (0, f)
    | some start => (start * pageSize, f.take start n)

variable {f : Frames}

/-- What `scan` finds lies before its end and is free. -/
theorem scan_free {n : Nat} {left i run start found : Nat} (ahead : run ≠ 0 → start + run = i)
    (free : ∀ j, start ≤ j → j < start + run → f.used j = false) (short : run < n)
    (h : f.scan n left i run start = some found) :
    found + n ≤ i + left ∧ ∀ j, found ≤ j → j < found + n → f.used j = false := by
  induction left generalizing i run start with
  | zero => cases h
  | succ left ih =>
    unfold scan at h
    split at h
    · obtain ⟨inside, found⟩ := ih (fun no => absurd rfl no) (fun j _ _ => by omega) (by omega) h
      exact ⟨by omega, found⟩
    rename_i unused
    have unused : f.used i = false := by simpa using unused
    -- The free frames up to `i`, the first of which is `i` itself when there were none before.
    obtain ⟨first, ends, here⟩ : ∃ first, first + (run + 1) = i + 1 ∧ (if run = 0 then i else start) = first := by
      by_cases first : run = 0
      · exact ⟨i, by omega, if_pos first⟩
      exact ⟨start, by omega, if_neg first⟩
    rw [here] at h
    have free : ∀ j, first ≤ j → j < first + (run + 1) → f.used j = false := by
      intro j low high
      by_cases last : j = i
      · rw [last]
        exact unused
      have more : run ≠ 0 := by omega
      exact free j (by omega) (by omega)
    split at h
    next whole =>
      cases h
      rw [← whole]
      exact ⟨by omega, free⟩
    · obtain ⟨inside, found⟩ := ih (fun _ => ends) free (by omega) h
      exact ⟨by omega, found⟩

/-- Where `scan` finds nothing, no run of free frames is long enough, those before `i` included. -/
theorem scan_none {n left i run start : Nat} (short : run < n) (nothing : f.scan n left i run start = none) :
    ∀ s, i ≤ s + run → s + n ≤ i + left → ∃ j, s ≤ j ∧ j < s + n ∧ f.used j = true := by
  induction left generalizing i run start with
  | zero =>
    intro s low high
    omega
  | succ left ih =>
    intro s low high
    unfold scan at nothing
    split at nothing
    next used =>
      by_cases behind : s ≤ i
      · exact ⟨i, behind, by omega, used⟩
      · exact ih (by omega) nothing s (by omega) (by omega)
    · dsimp only at nothing
      split at nothing
      · cases nothing
      · exact ih (by omega) nothing s (by omega) (by omega)

/-- The frames that an allocation has taken. -/
def Took (before after : Frames) (a : Nat) : Prop :=
  before.used (a / pageSize) = false ∧ after.used (a / pageSize) = true

/-- An allocation takes exactly the frames from its address on. -/
theorem allocContig_took {n : Nat} (got : (f.allocContig n).1 ≠ 0) (a : Nat) :
    Took f (f.allocContig n).2 a ↔ (f.allocContig n).1 ≤ a ∧ a < (f.allocContig n).1 + n * pageSize := by
  unfold allocContig at got ⊢
  split at got
  · exact absurd rfl got
  rename_i some'
  rw [if_neg some']
  split at got
  · exact absurd rfl got
  rename_i start found
  have free := (scan_free (fun no => absurd rfl no) (fun j _ high => by omega) (Nat.pos_of_ne_zero some') found).2
  have low : start * pageSize ≤ a ↔ start ≤ a / pageSize := (Nat.le_div_iff_mul_le (by decide)).symm
  have high : a < start * pageSize + n * pageSize ↔ a / pageSize < start + n := by
    rw [← Nat.add_mul, Nat.div_lt_iff_lt_mul (by decide)]
  rw [low, high]
  constructor
  · rintro ⟨unused, taken⟩
    simpa [take, unused] using taken
  · rintro ⟨low, high⟩
    exact ⟨free _ low high, by simp [take, low, high]⟩

end Frames

end BarryOS.Mem
