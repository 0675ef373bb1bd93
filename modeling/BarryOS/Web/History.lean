import BarryOS.Lib.Run
import BarryOS.Lib.Str

/-!
# Where the reader has been

The history of `apps/browser.rs`: rows of octets with their lengths, the number of rows in use and
the row the reader is at. `Visits` is what it is for, a list with a place in it. The first address
goes to row 1, so that there is an empty row to go back to, and with the table full the lengths move
down and the rows do not. Runs without the two are runs of the list (`history_refines`).
-/

namespace BarryOS.Web

open Lib List

def histMax : Nat := 24

def histUrl : Nat := 256

/-- An address that fits an entry. -/
structure Address where
  text : Str
  fits : text.bytes.length ≤ histUrl

/-- What the reader, a page or a button does; `push` is false for a redirect. -/
inductive Action where
  | navigate (url : Address) (push : Bool)
  | back
  | forward

/-- A row of `HIST` with its `HIST_LEN`. -/
structure Row where
  octets : Bytes := replicate histUrl 0
  len : Nat := 0
  fits : len ≤ histUrl := by decide

/-- `from_utf8(..).unwrap_or("")` of the octets that count. -/
def Row.text (r : Row) : Str := .ofUtf8Or .empty (r.octets.take r.len)

structure History where
  rows : Nat → Row := fun _ => {}
  histN : Nat := 0
  histAt : Nat := 0

namespace History

def histStr (i : Nat) (h : History) : Str := if i ≥ h.histN then .empty else (h.rows i).text

def histStore (i : Nat) (s : Str) (h : History) : History :=
  let row := ⟨s.bytes.take histUrl ++ (h.rows i).octets.drop s.bytes.length, min s.bytes.length histUrl,
    Nat.min_le_right _ _⟩
  { h with rows := Function.update h.rows i row }

/-- Every row is copied onto itself, and its length to the row before. -/
def dropOldest (h : History) : History :=
  (range' 1 (histMax - 1)).foldl (fun h i =>
    let row := { h.rows (i - 1) with len := (h.rows i).len, fits := (h.rows i).fits }
    { h with rows := Function.update h.rows (i - 1) row }) h

def histPush (url : Str) (h : History) : History :=
  if h.histN > 0 ∧ h.histStr h.histAt = url then h
  else
    let h := { h with histN := h.histAt + 1 }
    let h := if h.histN ≥ histMax then { h.dropOldest with histN := h.histN - 1 } else h
    { h.histStore h.histN url with histN := h.histN + 1, histAt := h.histN }

def histReplace (url : Str) (h : History) : History :=
  if h.histN = 0 then h.histPush url else h.histStore h.histAt url

/-- The address that is loaded, if one is, and the history behind it. -/
def navigate (url : Str) (push : Bool) (h : History) : Option Str × History :=
  if url.bytes = [] then (none, h) else (some url, if push then h.histPush url else h.histReplace url)

def moveTo (index : Nat) (h : History) : Option Str × History :=
  if index ≥ h.histN then (none, h)
  else (some (.ofUtf8Or .empty ((h.histStr index).bytes.take histUrl)), { h with histAt := index })

def act (h : History) : Action → Option Str × History
  | .navigate url push => h.navigate url.text push
  | .back => if h.histAt > 0 then h.moveTo (h.histAt - 1) else (none, h)
  | .forward => if h.histAt + 1 < h.histN then h.moveTo (h.histAt + 1) else (none, h)

end History

/-- A list of addresses and the place of the current one. -/
structure Visits where
  entries : List Str := []
  place : Nat := 0

namespace Visits

/-- Going where one is already is not a new visit. -/
def push (url : Str) (v : Visits) : Visits :=
  if v.entries[v.place]? = some url then v
  else
    let kept := v.entries.take (v.place + 1)
    let kept := if kept.length = histMax then kept.tail else kept
    ⟨kept ++ [url], kept.length⟩

def replace (url : Str) (v : Visits) : Visits :=
  if v.entries = [] then v.push url else { v with entries := v.entries.set v.place url }

def act (v : Visits) : Action → Option Str × Visits
  | .navigate url push =>
    if url.text.bytes = [] then (none, v) else (some url.text, if push then v.push url.text else v.replace url.text)
  | .back => if 0 < v.place then (v.entries[v.place - 1]?, { v with place := v.place - 1 }) else (none, v)
  | .forward =>
    if v.place + 1 < v.entries.length then (v.entries[v.place + 1]?, { v with place := v.place + 1 }) else (none, v)

end Visits

/-- A step, with what has been loaded so far. -/
def record {σ : Type} (act : σ → Action → Option Str × σ) (s : σ × List Str) (a : Action) : σ × List Str :=
  ((act s.1 a).2, s.2 ++ (act s.1 a).1.toList)

namespace History

/-- The rows in use behind the empty one. -/
def visits (h : History) : Visits := ⟨(range (h.histN - 1)).map fun i => (h.rows (i + 1)).text, h.histAt - 1⟩

/-- The condition on an action: nobody goes back from the first entry, and a new address finds a row. -/
def Admits (h : History) : Action → Prop
  | .navigate url true => url.text.bytes ≠ [] → h.histStr h.histAt ≠ url.text → h.histAt + 1 < histMax
  | .back => h.histAt ≠ 1
  | _ => True

/-- The row the reader is at is in use. -/
def Placed (h : History) : Prop := h.histN = 0 ∧ h.histAt = 0 ∨ 1 ≤ h.histAt ∧ h.histAt < h.histN

variable {h : History} {url : Address}

theorem store_text (h : History) (url : Address) (i j : Nat) :
    ((h.histStore i url.text).rows j).text = if j = i then url.text else (h.rows j).text := by
  dsimp only [histStore]
  split
  next here =>
    rw [here, Function.update_self]
    dsimp only [Row.text]
    rw [take_of_length_le url.fits, Nat.min_eq_left url.fits, take_left, Str.ofUtf8Or_bytes]
  next other => rw [Function.update_of_ne other]

theorem moveTo_placed {index : Nat} (first : 1 ≤ index) (inside : index < h.histN) :
    (h.moveTo index).2.Placed ∧ (h.moveTo index).2.visits = { h.visits with place := index - 1 } ∧
      (h.moveTo index).1 = h.visits.entries[index - 1]? := by
  have row : index - 1 < h.histN - 1 := by omega
  have short : (h.rows index).text.bytes.length ≤ histUrl := by
    unfold Row.text Str.ofUtf8Or
    split
    · exact (length_take_le _ _).trans (h.rows index).fits
    · exact Nat.zero_le _
  unfold moveTo
  rw [if_neg (Nat.not_le.mpr inside), histStr, if_neg (Nat.not_le.mpr inside), take_of_length_le short]
  refine ⟨.inr ⟨first, inside⟩, rfl, ?_⟩
  simp [visits, row, Nat.sub_add_cancel first]

namespace Placed

variable (placed : h.Placed)

include placed

/-- The current entry. -/
theorem current (url : Str) :
    h.visits.entries[h.visits.place]? = some url ↔ h.histN > 0 ∧ h.histStr h.histAt = url := by
  rcases placed with ⟨none, start⟩ | ⟨first, inside⟩
  · simp [visits, none]
  · have row : h.histAt - 1 < h.histN - 1 := by omega
    have used : 0 < h.histN := by omega
    simp [visits, histStr, row, used, Nat.sub_add_cancel first, Nat.not_le.mpr inside]

theorem histPush (room : h.histStr h.histAt ≠ url.text → h.histAt + 1 < histMax) :
    (h.histPush url.text).Placed ∧ (h.histPush url.text).visits = h.visits.push url.text := by
  unfold History.histPush Visits.push
  by_cases same : h.histN > 0 ∧ h.histStr h.histAt = url.text
  · rw [if_pos same, if_pos ((current placed url.text).mpr same)]
    exact ⟨placed, rfl⟩
  rw [if_neg same, if_neg (mt (current placed url.text).mp same)]
  have left : h.histAt + 1 < histMax := by
    rcases placed with ⟨none, start⟩ | ⟨first, inside⟩
    · rw [start]
      decide
    · exact room fun current => same ⟨by omega, current⟩
  have kept : h.visits.entries.take (h.visits.place + 1) = (range h.histAt).map fun i => (h.rows (i + 1)).text := by
    rcases placed with ⟨none, start⟩ | ⟨first, inside⟩
    · simp [visits, none, start]
    · rw [visits, ← map_take, take_range, Nat.sub_add_cancel first, Nat.min_eq_left (by omega)]
  simp only [kept, Nat.not_le.mpr left, ↓reduceIte, length_map, length_range, show h.histAt ≠ histMax by omega]
  refine ⟨.inr ⟨Nat.succ_pos _, Nat.lt_succ_self _⟩, ?_⟩
  have stored := store_text { h with histN := h.histAt + 1 } url (h.histAt + 1)
  simp only [visits, Nat.add_sub_cancel, stored, range_succ, map_append]
  congr 2
  · apply map_congr_left
    intro i inside
    have := mem_range.mp inside
    rw [if_neg (by omega)]
  · simp

theorem histReplace :
    (h.histReplace url.text).Placed ∧ (h.histReplace url.text).visits = h.visits.replace url.text := by
  unfold History.histReplace Visits.replace
  by_cases none : h.histN = 0
  · rw [if_pos none, if_pos (by simp [visits, none])]
    exact histPush placed fun _ => by rw [(placed.resolve_right (by omega)).2]; decide
  obtain ⟨first, inside⟩ := placed.resolve_left fun empty => none empty.1
  rw [if_neg none, if_neg (by simp [visits]; omega)]
  refine ⟨.inr ⟨first, inside⟩, ?_⟩
  simp only [visits, store_text]
  congr 1
  apply ext_getElem
  · simp [histStore]
  · intro i _ _
    simp only [getElem_map, getElem_range, getElem_set, show h.histAt - 1 = i ↔ i + 1 = h.histAt by omega]

theorem act {a : Action} (ok : h.Admits a) :
    (h.act a).2.Placed ∧ (h.act a).2.visits = (h.visits.act a).2 ∧ (h.act a).1 = (h.visits.act a).1 := by
  have place : h.visits.place = h.histAt - 1 := rfl
  have count : h.visits.entries.length = h.histN - 1 := by simp [visits]
  cases a with
  | navigate url push =>
    dsimp only [History.act, navigate, Visits.act]
    by_cases empty : url.text.bytes = []
    · rw [if_pos empty, if_pos empty]
      exact ⟨placed, rfl, rfl⟩
    rw [if_neg empty, if_neg empty]
    cases push with
    | true => exact ⟨(histPush placed (ok empty)).1, (histPush placed (ok empty)).2, rfl⟩
    | false => exact ⟨(histReplace placed).1, (histReplace placed).2, rfl⟩
  | back =>
    have later : h.histAt ≠ 1 := ok
    dsimp only [History.act, Visits.act]
    by_cases first : h.histAt > 0
    · rw [if_pos first, if_pos (by omega)]
      exact moveTo_placed (by omega) (by unfold Placed at placed; omega)
    · rw [if_neg first, if_neg (by omega)]
      exact ⟨placed, rfl, rfl⟩
  | forward =>
    dsimp only [History.act, Visits.act]
    by_cases more : h.histAt + 1 < h.histN
    · have here : h.visits.place + 1 = h.histAt := by
        unfold Placed at placed
        omega
      rw [if_pos more, here, if_pos (by omega)]
      exact moveTo_placed (by omega) more
    · unfold Placed at placed
      rw [if_neg more, if_neg (by omega)]
      exact ⟨placed, rfl, rfl⟩

theorem run {loads : List Str} {as : List Action}
    (admitted : Along (record History.act) (fun s a => s.1.Admits a) (h, loads) as) :
    ((run (record History.act) (h, loads) as).1.visits, (run (record History.act) (h, loads) as).2) =
      run (record Visits.act) (h.visits, loads) as := by
  induction as generalizing h loads with
  | nil => rfl
  | cons a as ih =>
    obtain ⟨next, visits, loaded⟩ := act placed admitted.1
    rw [run_cons, run_cons, record, record, ← visits, ← loaded]
    exact ih next admitted.2

end Placed

end History

/-- In every run whose actions all meet the condition the history is a list with a place in it, and
what is loaded is what stands there. -/
theorem history_refines (as : List Action)
    (admitted : Along (record History.act) (fun s a => s.1.Admits a) ({}, []) as) :
    ((run (record History.act) ({}, []) as).1.visits, (run (record History.act) ({}, []) as).2) =
      run (record Visits.act) ({}, []) as :=
  History.Placed.run (.inl ⟨rfl, rfl⟩) admitted

/-- The reader visits the address of one letter. -/
def visit (i : Nat) : Action := .navigate ⟨.letter i, by simp [Str.letter, histUrl]⟩ true

/-- Two addresses, and back to the first. -/
theorem history_back : (run (record History.act) ({}, []) [visit 0, visit 1, .back]).2 =
    [.letter 0, .letter 1, .letter 0] :=
  congrArg Prod.snd (history_refines [visit 0, visit 1, .back]
    ⟨fun _ _ => by decide, fun _ _ => by decide, show _ ≠ 1 by decide, trivial⟩)

/-- There is nothing before the first entry, but an empty address is loaded. -/
theorem back_from_first_loads : ¬ ∀ as : List Action,
    ((run (record History.act) ({}, []) as).1.visits, (run (record History.act) ({}, []) as).2) =
      run (record Visits.act) ({}, []) as := by
  intro always
  have loads := congrArg (fun s => s.2.length) (always [visit 0, .back])
  exact absurd loads (by decide)

end BarryOS.Web
