import Mathlib.Algebra.Ring.Nat
import Mathlib.Data.List.Basic

/-!
# Runs of a step function

A system here is a state type, an event type and a total step function; a run
is a fold of the step over a list of events. `Along` says that every event of a
run meets a condition in the state it is taken from, so that an invariant needs
one step lemma and the run is discharged here.
-/

namespace BarryOS.Lib

variable {σ ε : Type}

/-- The state after a list of events. -/
def run (step : σ → ε → σ) (s : σ) (es : List ε) : σ :=
  es.foldl step s

/-- Every event of the run meets `ok` in the state it is taken from. -/
def Along (step : σ → ε → σ) (ok : σ → ε → Prop) : σ → List ε → Prop
  | _, [] => True
  | s, e :: es => ok s e ∧ Along step ok (step s e) es

instance (step : σ → ε → σ) (ok : σ → ε → Prop) [∀ s e, Decidable (ok s e)] : ∀ s es, Decidable (Along step ok s es)
  | _, [] => isTrue trivial
  | s, e :: es =>
    have := instDecidableAlong step ok (step s e) es
    inferInstanceAs (Decidable (ok s e ∧ Along step ok (step s e) es))

/-- Every state of the run has the property, the first one included. -/
def Throughout (step : σ → ε → σ) (P : σ → Prop) : σ → List ε → Prop
  | s, [] => P s
  | s, e :: es => P s ∧ Throughout step P (step s e) es

@[simp] theorem run_nil (step : σ → ε → σ) (s : σ) : run step s [] = s := rfl

@[simp] theorem run_cons (step : σ → ε → σ) (s : σ) (e : ε) (es : List ε) :
    run step s (e :: es) = run step (step s e) es := rfl

variable {step : σ → ε → σ}

/-- A part of the state that steps on its own. -/
theorem run_part {τ : Type} {part : σ → τ} {step' : τ → ε → τ}
    (same : ∀ s e, part (step s e) = step' (part s) e) (s : σ) (es : List ε) :
    part (run step s es) = run step' (part s) es := by
  induction es generalizing s with
  | nil => rfl
  | cons e es ih => rw [run_cons, run_cons, ih, same]

theorem run_append (step : σ → ε → σ) (s : σ) (es fs : List ε) :
    run step s (es ++ fs) = run step (run step s es) fs := by
  simp [run]

theorem along_append (step : σ → ε → σ) (ok : σ → ε → Prop) (s : σ) (es fs : List ε) :
    Along step ok s (es ++ fs) ↔ Along step ok s es ∧ Along step ok (run step s es) fs := by
  induction es generalizing s with
  | nil => simp [Along]
  | cons e es ih => simp [Along, ih, and_assoc]

section

variable {ok : σ → ε → Prop} (inv : σ → Prop) (kept : ∀ s e, inv s → ok s e → inv (step s e)) {s : σ} {es : List ε}
  (start : inv s) (admitted : Along step ok s es)

include kept start admitted

/-- An invariant that every admitted step keeps holds in the state reached. -/
theorem Along.invariant : inv (run step s es) := by
  induction es generalizing s with
  | nil => exact start
  | cons e es ih => exact ih (kept s e start admitted.1) admitted.2

/-- An invariant that every admitted step keeps holds all along the run. -/
theorem Along.throughout : Throughout step inv s es := by
  induction es generalizing s with
  | nil => exact start
  | cons e es ih => exact ⟨start, ih (kept s e start admitted.1) admitted.2⟩

end

variable {s : σ}

/-- Two conditions that agree wherever an invariant holds are met by the same runs. -/
theorem along_congr {ok ok' : σ → ε → Prop} (inv : σ → Prop)
    (kept : ∀ s e, inv s → inv (step s e)) (agree : ∀ s e, inv s → (ok s e ↔ ok' s e)) (start : inv s)
    (es : List ε) : Along step ok s es ↔ Along step ok' s es := by
  induction es generalizing s with
  | nil => exact Iff.rfl
  | cons e es ih => exact and_congr (agree s e start) (ih (kept s e start))

theorem run_invariant (inv : σ → Prop) (kept : ∀ s e, inv s → inv (step s e))
    (start : inv s) (es : List ε) : inv (run step s es) := by
  induction es generalizing s with
  | nil => exact start
  | cons e es ih => exact ih (kept s e start)

theorem Throughout.first {P : σ → Prop} {es : List ε} (h : Throughout step P s es) : P s := by
  cases es with
  | nil => exact h
  | cons e es => exact h.1

/-- The runs with the property all along are those in which every event keeps it. -/
theorem throughout_iff {ok : σ → ε → Prop} {inv : σ → Prop}
    (kept : ∀ s e, inv s → (inv (step s e) ↔ ok s e)) (start : inv s) (es : List ε) :
    Throughout step inv s es ↔ Along step ok s es := by
  refine ⟨fun all => ?_, Along.throughout inv (fun s e holds => (kept s e holds).mpr) start⟩
  induction es generalizing s with
  | nil => trivial
  | cons e es ih => exact ⟨(kept s e start).mp all.2.first, ih all.2.first all.2⟩

theorem throughout_and {P Q : σ → Prop} (s : σ) (es : List ε) :
    Throughout step (fun s => P s ∧ Q s) s es ↔ Throughout step P s es ∧ Throughout step Q s es := by
  induction es generalizing s with
  | nil => exact Iff.rfl
  | cons e es ih =>
    rw [Throughout, ih]
    exact and_and_and_comm

theorem Throughout.mono {P Q : σ → Prop} (imp : ∀ s, P s → Q s) {es : List ε}
    (h : Throughout step P s es) : Throughout step Q s es := by
  induction es generalizing s with
  | nil => exact imp s h
  | cons e es ih => exact ⟨imp s h.1, ih h.2⟩

theorem throughout_congr {P Q : σ → Prop} (iff : ∀ s, P s ↔ Q s) (s : σ) (es : List ε) :
    Throughout step P s es ↔ Throughout step Q s es :=
  ⟨Throughout.mono fun s => (iff s).mp, Throughout.mono fun s => (iff s).mpr⟩

theorem Throughout.last {P : σ → Prop} {es : List ε} (h : Throughout step P s es) : P (run step s es) := by
  induction es generalizing s with
  | nil => exact h
  | cons e es ih => exact ih h.2

end BarryOS.Lib
