import Mathlib.Data.List.Basic

/-!
# Computations that leave a trace

A computation emits events in order and gives a result or stops with an error; the events
before an error stand. What a sequence of computations emits and gives is said of its parts
(`Stepwise`). Two loops come with rules of their own: `tally` is a loop over a range that adds up
what its turns give, and `loop` goes from state to state until a turn gives an answer. Its
fuel is enough when every turn makes the state smaller.
-/

namespace BarryOS.Lib

open Nat

/-- The events emitted, and what came of it. -/
structure Emit (ω ε α : Type) where
  events : List ω
  result : Except ε α

variable {fuel : Nat}

namespace Emit

variable {ω ε α β σ : Type}

def pure (a : α) : Emit ω ε α := ⟨[], .ok a⟩

def bind (m : Emit ω ε α) (f : α → Emit ω ε β) : Emit ω ε β :=
  match m.result with
  | .error e => ⟨m.events, .error e⟩
  | .ok a => ⟨m.events ++ (f a).events, (f a).result⟩

instance : Monad (Emit ω ε) where
  pure := pure
  bind := bind

def emit (w : ω) : Emit ω ε Unit := ⟨[w], .ok ()⟩

def halt (e : ε) : Emit ω ε α := ⟨[], .error e⟩

/-- The value, or else the error. -/
def need (e : ε) : Option α → Emit ω ε α
  | none => halt e
  | some a => pure a

/-- A computation that gives something. -/
def Passes (m : Emit ω ε α) : Prop := ∃ a, m.result = .ok a

/-! ## What a sequence emits and gives -/

variable {Q : ∀ α : Type, Emit ω ε α → Prop}

section Rules

variable {w : ω} {m n : Emit ω ε α} {f : α → Emit ω ε β}

@[simp] theorem events_pure (a : α) : (Pure.pure a : Emit ω ε α).events = [] := rfl

@[simp] theorem result_pure (a : α) : (Pure.pure a : Emit ω ε α).result = .ok a := rfl

@[simp] theorem events_emit (w : ω) : (emit w : Emit ω ε Unit).events = [w] := rfl

@[simp] theorem result_emit (w : ω) : (emit w : Emit ω ε Unit).result = .ok () := rfl

variable (e : ε)

@[simp] theorem events_halt : (halt e : Emit ω ε α).events = [] := rfl

@[simp] theorem result_halt : (halt e : Emit ω ε α).result = .error e := rfl

variable (o : Option α)

@[simp] theorem events_need : (need e o : Emit ω ε α).events = [] := by
  cases o <;> rfl

@[simp] theorem need_ok (a : α) : (need e o : Emit ω ε α).result = .ok a ↔ o = some a := by
  cases o with
  | none => simp [need]
  | some b => simp [need, pure]

theorem bind_ok {b : β} : (m >>= f).result = .ok b ↔ ∃ a, m.result = .ok a ∧ (f a).result = .ok b := by
  show (bind m f).result = _ ↔ _
  unfold bind
  cases result : m.result with
  | error e => simp
  | ok a => simp

theorem ite_ok {c : Prop} [Decidable c] {a : α} :
    (if c then m else n).result = .ok a ↔ c ∧ m.result = .ok a ∨ ¬ c ∧ n.result = .ok a := by
  split
  next yes => simp [yes]
  next no => simp [no]

theorem passes_bind : Passes (m >>= f) ↔ ∃ a, m.result = .ok a ∧ Passes (f a) := by
  simp only [Passes, bind_ok]
  exact exists_comm.trans (exists_congr fun a => exists_and_left)

theorem passes_ite {c : Prop} [Decidable c] : Passes (if c then m else n) ↔ (c → Passes m) ∧ (¬ c → Passes n) := by
  split
  next yes => simp [yes]
  next no => simp [no]

@[simp] theorem passes_pure (a : α) : Passes (Pure.pure a : Emit ω ε α) := ⟨a, rfl⟩

@[simp] theorem passes_halt : ¬ Passes (halt e : Emit ω ε α) := by
  simp [Passes]

/-- A property that a sequence has when its parts have it, as far as they are reached. -/
structure Stepwise (Q : ∀ α : Type, Emit ω ε α → Prop) : Prop where
  pure {α : Type} (a : α) : Q α (Pure.pure a)
  bind {α β : Type} (m : Emit ω ε α) (f : α → Emit ω ε β) :
    Q β (m >>= f) ↔ Q α m ∧ ∀ a, m.result = .ok a → Q β (f a)

theorem stepwise_events (p : ω → Prop) : Stepwise fun _ (m : Emit ω ε _) => ∀ w ∈ m.events, p w where
  pure _ := by simp
  bind m f := by
    show (∀ w ∈ (bind m f).events, p w) ↔ _
    unfold bind
    cases result : m.result with
    | error e => simp
    | ok a => simp [or_imp, forall_and]

theorem stepwise_passes : Stepwise fun _ (m : Emit ω ε _) => Passes m where
  pure := passes_pure
  bind m f := by
    rw [passes_bind]
    unfold Passes
    cases result : m.result with
    | error e => simp
    | ok a => simp

theorem stepwise_avoids (e : ε) : Stepwise fun _ (m : Emit ω ε _) => m.result ≠ .error e where
  pure _ := by simp
  bind m f := by
    show (bind m f).result ≠ _ ↔ _
    unfold bind
    cases result : m.result with
    | error e => simp
    | ok a => simp

end Rules

/-! ## A loop over a range -/

/-- The turns `i`, `i + 1`, … of the loop, `left` of them, on top of a count. -/
def tally (turn : Nat → Emit ω ε Nat) : (left i count : Nat) → Emit ω ε Nat
  | 0, _, count => Pure.pure count
  | left + 1, i, count => do
    let n ← turn i
    tally turn left (i + 1) (count + n)

section Tally

variable {turn : Nat → Emit ω ε Nat}

theorem Stepwise.tally (h : Stepwise Q) (left i count : Nat) : Q Nat (tally turn left i count) ↔
    ∀ k, k < left → (∀ j, j < k → Passes (turn (i + j))) → Q Nat (turn (i + k)) := by
  induction left generalizing i count with
  | zero => simp [Emit.tally, h.pure]
  | succ left ih =>
    simp only [Emit.tally, h.bind, ih, Nat.forall_lt_succ_left', Nat.add_right_comm i 1, and_imp]
    refine and_congr (by simp) ?_
    exact ⟨fun all k inside ⟨n, passed⟩ => all n passed k inside, fun all n passed k inside => all k inside ⟨n, passed⟩⟩

theorem tally_passes (left i count : Nat) :
    Passes (tally turn left i count) ↔ ∀ j, j < left → Passes (turn (i + j)) := by
  induction left generalizing i count with
  | zero => simp [tally]
  | succ left ih =>
    simp only [tally, passes_bind, ih, Nat.forall_lt_succ_left', Nat.add_right_comm i 1]
    exact exists_and_right

end Tally

/-! ## A loop from state to state -/

/-- Turns from a state on, until one gives an answer. -/
def loop (out : ε) (turn : σ → Emit ω ε (σ ⊕ α)) : Nat → σ → Emit ω ε α
  | 0, _ => halt out
  | fuel + 1, s => do
    match ← turn s with
    | .inl next => loop out turn fuel next
    | .inr a => Pure.pure a

/-- The states the loop gets to. -/
inductive Visits (turn : σ → Emit ω ε (σ ⊕ α)) (s : σ) : σ → Prop where
  | here : Visits turn s s
  | next {t u : σ} (before : Visits turn s t) (on : (turn t).result = .ok (.inl u)) : Visits turn s u

section Loop

variable {out : ε} {turn : σ → Emit ω ε (σ ⊕ α)} {size : σ → Nat}

theorem Visits.head {s t u : σ} (on : (turn s).result = .ok (.inl t)) (rest : Visits turn t u) : Visits turn s u := by
  induction rest with
  | here => exact .next .here on
  | next _ on' ih => exact .next ih on'

theorem Visits.cases_head {s u : σ} (h : Visits turn s u) :
    s = u ∨ ∃ t, (turn s).result = .ok (.inl t) ∧ Visits turn t u := by
  induction h with
  | here => exact .inl rfl
  | next before on ih =>
    rcases ih with rfl | ⟨t, first, rest⟩
    · exact .inr ⟨_, on, .here⟩
    · exact .inr ⟨t, first, .next rest on⟩

variable (shrinks : ∀ s t, (turn s).result = .ok (.inl t) → size t < size s)

include shrinks

variable {s : σ}

theorem Stepwise.loop (h : Stepwise Q) (enough : size s < fuel) :
    Q α (loop out turn fuel s) ↔ ∀ t, Visits turn s t → Q (σ ⊕ α) (turn t) := by
  induction fuel generalizing s with
  | zero => exact absurd enough (not_lt_zero _)
  | succ fuel ih =>
    rw [Emit.loop, h.bind]
    constructor
    · rintro ⟨first, rest⟩ t visited
      rcases visited.cases_head with rfl | ⟨next, on, later⟩
      · exact first
      have smaller := shrinks s next on
      exact (ih (by omega)).mp (rest _ on) t later
    · intro all
      refine ⟨all s .here, fun b passed => ?_⟩
      cases b with
      | inl next =>
        have smaller := shrinks s next passed
        exact (ih (by omega)).mpr fun t later => all t (.head passed later)
      | inr a => exact h.pure a

theorem loop_ok {a : α} (enough : size s < fuel) :
    (loop out turn fuel s).result = .ok a ↔ ∃ t, Visits turn s t ∧ (turn t).result = .ok (.inr a) := by
  induction fuel generalizing s with
  | zero => exact absurd enough (not_lt_zero _)
  | succ fuel ih =>
    rw [loop, bind_ok]
    constructor
    · rintro ⟨b, passed, rest⟩
      cases b with
      | inl next =>
        have smaller := shrinks s next passed
        obtain ⟨t, visited, answer⟩ := (ih (by omega)).mp rest
        exact ⟨t, .head passed visited, answer⟩
      | inr b =>
        cases rest
        exact ⟨s, .here, passed⟩
    · rintro ⟨t, visited, answer⟩
      rcases visited.cases_head with rfl | ⟨next, passed, rest⟩
      · exact ⟨.inr a, answer, rfl⟩
      have smaller := shrinks s next passed
      exact ⟨.inl next, passed, (ih (by omega)).mpr ⟨t, rest, answer⟩⟩

end Loop

end Emit

end BarryOS.Lib
