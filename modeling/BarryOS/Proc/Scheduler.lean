import BarryOS.Lib.Run
import Mathlib.Data.List.FinRange
import Mathlib.Logic.Function.Basic

/-!
# The scheduler

`tick` goes round the process table from the current slot and moves on to the next ready process.
Names, stacks, registers and the counters that are only printed are left out.
-/

namespace BarryOS.Proc

open Lib List Function

inductive ProcessState where
  | free | ready | running | blocked | exited
  deriving DecidableEq

structure ProcessControlBlock where
  pid : Nat := 0
  state : ProcessState := .free

/-- `MAX_PROCESSES` of them. -/
abbrev Slot := Fin 16

structure Scheduler where
  table : Slot → ProcessControlBlock := fun _ => {}
  nextPid : Nat := 1
  enabled : Bool := false
  current : Slot := 0

inductive Event where
  | enable
  | tick
  | spawn (memory : Bool)
  | exit
  deriving DecidableEq

namespace Scheduler

variable (s : Scheduler)

def state (i : Slot) : ProcessState := (s.table i).state

def setState (i : Slot) (st : ProcessState) : Scheduler :=
  { s with table := update s.table i { s.table i with state := st } }

/-- After `create_idle`. -/
def boot : Scheduler := { table := update (fun _ => {}) 0 { pid := 0, state := .ready } }

def currentPid : Nat := (s.table s.current).pid

def slotAfter (k : Nat) : Slot := Fin.ofNat 16 (s.current + k)

/-- The next ready process, or the idle one if there is none. -/
def findNext : Slot :=
  match (range' 1 16).find? fun k => s.state (s.slotAfter k) = .ready with
  | some k => s.slotAfter k
  | none => 0

def tick : Scheduler :=
  if s.enabled = false ∨ s.findNext = s.current then s
  else { (if s.state s.current = .running then s.setState s.current .ready else s).setState s.findNext .running with
    current := s.findNext }

def allocSlot : Option Slot := (finRange 16).find? fun i => s.state i = .free

/-- The new process's id, 0 where the table is full or there is no memory for a stack. -/
def spawn (memory : Bool) : Nat × Scheduler :=
  match s.allocSlot with
  | none => (0, s)
  | some i =>
    if memory = false then (0, s)
    else
      (s.nextPid, { s with nextPid := s.nextPid + 1, table := update s.table i { pid := s.nextPid, state := .ready } })

/-- A thread exits while it is the current one. -/
def step : Event → Scheduler
  | .enable => { s with enabled := true }
  | .tick => s.tick
  | .spawn memory => (s.spawn memory).2
  | .exit => s.setState s.current .exited

/-- Slots are taken in order and never given back, so a process has the number of its slot. -/
structure Numbered : Prop where
  free : ∀ i, s.state i = .free ↔ s.nextPid ≤ i
  pid : ∀ i, s.state i ≠ .free → (s.table i).pid = i
  current : s.current < s.nextPid
  few : s.nextPid ≤ 16
  running : ∀ i, s.state i = .running → i = s.current

variable {s} {i p : Slot}

/-! ## The calls -/

theorem tick_cases (s : Scheduler) : s.tick = s ∧ (s.enabled = false ∨ s.findNext = s.current) ∨
    s.tick.current = s.findNext ∧ s.tick.enabled = s.enabled ∧ s.tick.nextPid = s.nextPid ∧
      ∀ j, (s.tick.table j).pid = (s.table j).pid ∧ s.tick.state j =
        if j = s.findNext then .running
        else if j = s.current ∧ s.state j = .running then .ready else s.state j := by
  by_cases stays : s.enabled = false ∨ s.findNext = s.current
  · exact .inl ⟨if_pos stays, stays⟩
  right
  rw [tick, if_neg stays]
  unfold setState state
  split <;> refine ⟨rfl, rfl, rfl, fun j => ?_⟩ <;> simp only [update_apply] <;> grind

theorem spawn_cases (s : Scheduler) (memory : Bool) :
    s.spawn memory = (0, s) ∨ ∃ i, s.state i = .free ∧ (∀ j < i, s.state j ≠ .free) ∧
      s.spawn memory = (s.nextPid, { s with
        nextPid := s.nextPid + 1, table := update s.table i { pid := s.nextPid, state := .ready } }) := by
  unfold spawn
  cases found : s.allocSlot with
  | none => exact .inl rfl
  | some i =>
    cases memory with
    | false => exact .inl rfl
    | true =>
      obtain ⟨free, k, inside, rfl, earlier⟩ := find?_eq_some_iff_getElem.mp found
      refine .inr ⟨_, by simpa using free, fun j before => ?_, rfl⟩
      simpa using earlier j (by simpa [Fin.lt_def] using before)

/-! ## Every ready process has its turn -/

/-- How many slots lie between the current one and `p`. -/
def ahead (s : Scheduler) (p : Slot) : Nat := (p + (15 - s.current)) % 16

/-- A ready process is next, or one on the way to it. -/
theorem findNext_ready (ready : s.state p = .ready) :
    ∃ k ≤ s.ahead p, s.findNext.val = (s.current + (k + 1)) % 16 := by
  have here : s.slotAfter (s.ahead p + 1) = p := by
    apply Fin.ext
    simp only [slotAfter, ahead, Fin.val_ofNat]
    omega
  unfold findNext
  split
  next k found =>
    obtain ⟨_, inside, first⟩ := find?_range'_eq_some.mp found
    have := mem_range'_1.mp inside
    refine ⟨k - 1, ?_, by simp only [slotAfter, Fin.val_ofNat]; congr 2; omega⟩
    by_contra far
    simpa [here, ready] using first (s.ahead p + 1) (by omega) (by omega)
  next missing =>
    have := find?_range'_eq_none.mp missing (s.ahead p + 1) (by omega) (by simp only [ahead]; omega)
    simp [here, ready] at this

/-- A tick comes to a ready process, or closer to it; nothing else takes its turn. -/
theorem step_ready (e : Event) (live : s.enabled = true) (ready : s.state p = .ready) (other : p ≠ s.current) :
    (s.step e).current = p ∨ (s.step e).ahead p + [e].count .tick ≤ s.ahead p ∧
      (s.step e).state p = .ready ∧ (s.step e).enabled = true := by
  cases e with
  | enable => exact .inr ⟨Nat.le_refl _, ready, rfl⟩
  | exit => exact .inr ⟨Nat.le_refl _, by simpa [step, setState, state, other] using ready, live⟩
  | spawn memory =>
    right
    rcases spawn_cases s memory with same | ⟨i, free, _, made⟩
    · rw [step, same]
      exact ⟨Nat.le_refl _, ready, live⟩
    have used : p ≠ i := by
      rintro rfl
      cases free.symm.trans ready
    rw [step, made]
    exact ⟨Nat.le_refl _, by simpa [state, used] using ready, live⟩
  | tick =>
    obtain ⟨k, close, moved⟩ := findNext_ready ready
    have ne : s.current.val ≠ p.val := fun same => other (Fin.ext same.symm)
    simp only [ahead] at close
    rcases tick_cases s with ⟨_, off | same⟩ | ⟨next, still, _, states⟩
    · cases off.symm.trans live
    · rw [same] at moved
      omega
    by_cases reached : p = s.findNext
    · exact .inl (next.trans reached.symm)
    have missed : s.findNext.val ≠ p.val := fun same => reached (Fin.ext same.symm)
    refine .inr ⟨?_, ?_, still.trans live⟩
    · simp only [step, ahead, next, count_singleton_self]
      omega
    · rw [step, (states p).2, if_neg reached, if_neg fun ⟨here, _⟩ => other here, ready]

/-- A ready process has been the current one before sixteen ticks are over, whatever else happens. -/
theorem ready_has_turn (es : List Event) (live : s.enabled = true) (ready : s.state p = .ready)
    (round : 16 ≤ es.count .tick) : ∃ front, front <+: es ∧ (run step s front).current = p := by
  have close : s.ahead p < es.count .tick := Nat.lt_of_lt_of_le (Nat.mod_lt _ (by decide)) round
  clear round
  -- The distance falls with every tick, and nothing else makes it longer.
  induction es generalizing s with
  | nil => simp at close
  | cons e es ih =>
    by_cases here : p = s.current
    · exact ⟨[], nil_prefix, here.symm⟩
    suffices later : ∃ front, front <+: es ∧ (run step (s.step e) front).current = p by
      obtain ⟨front, starts, there⟩ := later
      exact ⟨e :: front, cons_prefix_cons.mpr ⟨rfl, starts⟩, there⟩
    rcases step_ready e live ready here with there | ⟨closer, ready, live⟩
    · exact ⟨[], nil_prefix, there⟩
    rw [← singleton_append, count_append] at close
    exact ih live ready (by omega)

/-- The first of the threads that `proc::init` starts. -/
theorem thread_has_turn : ∃ front, front <+: replicate 16 Event.tick ∧
    (run step (run step boot [.spawn true, .spawn true, .enable]) front).current = 1 :=
  ready_has_turn _ (by decide) (by decide) (by decide)

/-! ## The table in every run -/

theorem Numbered.findNext (h : Numbered s) : s.findNext < s.nextPid := by
  unfold Scheduler.findNext
  split
  next k found =>
    have ready : s.state (s.slotAfter k) = .ready := by simpa using find?_some found
    have := h.free (s.slotAfter k)
    grind
  · exact Nat.zero_lt_of_lt h.current

theorem Numbered.step (h : Numbered s) (e : Event) : Numbered (s.step e) := by
  have ⟨free, pid, current, few, running⟩ := h
  cases e with
  | enable => exact ⟨free, pid, current, few, running⟩
  | exit =>
    unfold Scheduler.step setState
    constructor <;> simp only [state, update_apply] at * <;> grind
  | tick =>
    rcases tick_cases s with ⟨same, _⟩ | ⟨next, _, count, states⟩
    · rwa [Scheduler.step, same]
    have used := h.findNext
    constructor <;> simp only [Scheduler.step, next, count, states] <;> grind
  | spawn memory =>
    rcases spawn_cases s memory with same | ⟨i, vacant, first, made⟩
    · rwa [Scheduler.step, same]
    have next : s.nextPid = i := by
      apply Nat.le_antisymm ((free i).mp vacant)
      by_contra later
      exact first ⟨s.nextPid, by omega⟩ (Nat.lt_of_not_le later) ((free _).mpr (Nat.le_refl _))
    rw [Scheduler.step, made]
    constructor <;> simp only [state, update_apply] at * <;> grind

theorem numbered (es : List Event) : Numbered (run step boot es) :=
  run_invariant Numbered (fun _ e h => h.step e) (by constructor <;> decide) es

/-- In every run from the boot only the current process is running, and `current_pid` is the number of its slot. -/
theorem current_process (es : List Event) : let s := run step boot es
    s.currentPid = s.current ∧ ∀ i, s.state i = .running → i = s.current := by
  have h := numbered es
  refine ⟨h.pid _ fun free => ?_, h.running⟩
  exact Nat.not_le_of_lt h.current ((h.free _).mp free)

/-- Slots are not given back: processes have different numbers, and no more than fifteen threads are ever started. -/
theorem process_numbers (es : List Event) : let s := run step boot es
    (∀ i j, s.state i ≠ .free → s.state j ≠ .free → (s.table i).pid = (s.table j).pid → i = j) ∧
      s.nextPid ≤ 16 := by
  have h := numbered es
  refine ⟨fun i j hi hj same => ?_, h.few⟩
  rw [h.pid i hi, h.pid j hj] at same
  exact Fin.ext same

end Scheduler

end BarryOS.Proc
