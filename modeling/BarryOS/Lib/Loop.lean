import Mathlib.Data.List.Basic

/-!
# Loops

`whileSome size step s` repeats `step` until it gives nothing. The fuel is the size of
the first state, which is enough when every step makes the state smaller. A loop over a
list whose body may fail to return is `foldlM` in `Option`.
-/

namespace BarryOS.Lib

variable {σ : Type}

/-- At most so many steps. -/
def loopFor (step : σ → Option σ) : Nat → σ → σ
  | 0, s => s
  | n + 1, s =>
    match step s with
    | none => s
    | some next => loopFor step n next

def whileSome (size : σ → Nat) (step : σ → Option σ) (s : σ) : σ := loopFor step (size s) s

section Rules

variable {size : σ → Nat} {step : σ → Option σ}

theorem whileSome_invariant (inv : σ → Prop) (kept : ∀ s next, inv s → step s = some next → inv next)
    {s : σ} (start : inv s) : inv (whileSome size step s) := by
  have general : ∀ (n : Nat) (s : σ), inv s → inv (loopFor step n s) := by
    intro n
    induction n with
    | zero => exact fun _ start => start
    | succ n ih =>
      intro s start
      unfold loopFor
      split
      · exact start
      next next result => exact ih next (kept s next start result)
  exact general _ s start

/-- What relates the first state to the last, by the turns of the loop. -/
theorem whileSome_ends (R : σ → σ → Prop) (shrinks : ∀ s next, step s = some next → size next < size s)
    (stop : ∀ s, step s = none → R s s)
    (more : ∀ s next last, step s = some next → R next last → R s last) (s : σ) : R s (whileSome size step s) := by
  have general : ∀ (n : Nat) (s : σ), size s ≤ n → R s (loopFor step n s) := by
    intro n
    induction n with
    | zero =>
      intro s le
      cases result : step s with
      | none => exact stop s result
      | some next =>
        have := shrinks s next result
        omega
    | succ n ih =>
      intro s le
      unfold loopFor
      split
      next result => exact stop s result
      rename_i next result
      have := shrinks s next result
      exact more s next _ result (ih next (by omega))
  exact general _ s (Nat.le_refl _)

theorem whileSome_stops (shrinks : ∀ s next, step s = some next → size next < size s) (s : σ) :
    step (whileSome size step s) = none :=
  whileSome_ends (fun _ last => step last = none) shrinks (fun _ stopped => stopped) (fun _ _ _ _ later => later) s

theorem whileSome_done {s : σ} (stopped : step s = none) : whileSome size step s = s := by
  unfold whileSome
  cases size s with
  | zero => rfl
  | succ n =>
    unfold loopFor
    rw [stopped]

section

variable (shrinks : ∀ s next, step s = some next → size next < size s)

include shrinks

theorem loopFor_enough (n : Nat) (s : σ) (enough : size s ≤ n) : loopFor step n s = whileSome size step s := by
  have general : ∀ (n m : Nat) (s : σ), size s ≤ n → size s ≤ m → loopFor step n s = loopFor step m s := by
    intro n
    induction n with
    | zero =>
      intro m s le _
      cases result : step s with
      | none =>
        cases m with
        | zero => rfl
        | succ m => simp only [loopFor, result]
      | some next =>
        have := shrinks s next result
        omega
    | succ n ih =>
      intro m s le le'
      cases result : step s with
      | none =>
        cases m with
        | zero => simp only [loopFor, result]
        | succ m => simp only [loopFor, result]
      | some next =>
        have := shrinks s next result
        cases m with
        | zero => omega
        | succ m =>
          simp only [loopFor, result]
          exact ih m next (by omega) (by omega)
  exact general n (size s) s enough (Nat.le_refl _)

theorem whileSome_next {s next : σ}
    (taken : step s = some next) : whileSome size step s = whileSome size step next := by
  have smaller := shrinks s next taken
  rw [← loopFor_enough shrinks (size s) s (Nat.le_refl _), ← loopFor_enough shrinks (size s - 1) next (by omega)]
  obtain ⟨n, hn⟩ : ∃ n, size s = n + 1 := ⟨size s - 1, by omega⟩
  rw [hn, loopFor, taken]
  rfl

end

end Rules

/-- A loop whose body always returns, and keeps an invariant. -/
theorem foldlM_invariant {α : Type} {f : σ → α → Option σ} (inv : σ → Prop) {l : List α}
    (body : ∀ s, inv s → ∀ a ∈ l, ∃ next, f s a = some next ∧ inv next) {s : σ} (start : inv s) :
    ∃ last, l.foldlM f s = some last ∧ inv last := by
  induction l generalizing s with
  | nil => exact ⟨s, rfl, start⟩
  | cons a l ih =>
    obtain ⟨next, result, kept⟩ := body s start a (by simp)
    obtain ⟨last, rest, keptLast⟩ := ih (fun s hs a member => body s hs a (List.mem_cons_of_mem _ member)) kept
    exact ⟨last, by rw [List.foldlM_cons, result]; exact rest, keptLast⟩

theorem foldlM_returned {α : Type} {f : σ → α → Option σ} (inv : σ → Prop)
    (body : ∀ s a next, inv s → f s a = some next → inv next) {l : List α} {s last : σ}
    (start : inv s) (returned : l.foldlM f s = some last) : inv last := by
  induction l generalizing s with
  | nil =>
    cases returned
    exact start
  | cons a l ih =>
    obtain ⟨next, first, rest⟩ := Option.bind_eq_some_iff.mp returned
    exact ih (body s a next start first) rest

end BarryOS.Lib
