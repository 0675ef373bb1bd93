import BarryOS.Net.HttpHead

/-!
# Content-Length and Location

What a head says about the length of the body and about another place (`Head.contentLength`,
`Head.location`) against what the client keeps of it when it has read the head. The line of a field is
not read when it is the last one of the head; the length is kept to 32 bits, and the location to 256
octets with the blanks behind it.
-/

namespace BarryOS.Net.Http

open Lib List

/-! ## One line -/

/-- The value as `header_value` has it, with the blanks behind it. -/
def rawValue (name line : Bytes) : Bytes := (line.drop name.length).dropWhile blank

theorem headerValue_eq (name line : Bytes) :
    headerValue line name = if (line.take name.length).map lower = name then some (rawValue name line) else none := by
  have test : (fun b : UInt8 => decide (b = 0x20) || decide (b = 0x09)) = blank := rfl
  unfold headerValue
  by_cases same : (line.take name.length).map lower = name
  · have long := congrArg length same
    rw [length_map, length_take] at long
    rw [if_neg (by omega), if_neg (by simpa using same), if_pos same]
    rfl
  split <;> rfl

theorem fieldValue_eq (name line : Bytes) :
    fieldValue name line = (headerValue line name).map fun v => v.rdropWhile blank := by
  rw [headerValue_eq]
  unfold fieldValue
  split <;> rfl

theorem headerValue_none {name line : Bytes} (none' : fieldValue name line = none) : headerValue line name = none := by
  rw [fieldValue_eq, Option.map_eq_none_iff] at none'
  exact none'

theorem headerValue_some {name line v : Bytes} (found : fieldValue name line = some v) :
    headerValue line name = some (rawValue name line) ∧ v = (rawValue name line).rdropWhile blank := by
  rw [headerValue_eq]
  unfold fieldValue at found
  split at found
  next same =>
    rw [if_pos same]
    exact ⟨rfl, (Option.some.inj found).symm⟩
  · cases found

theorem length_not_location {line v : Bytes} (found : fieldValue locationName line = some v) :
    fieldValue lengthName line = none := by
  unfold fieldValue at found ⊢
  split at found
  next same =>
    refine if_neg fun other => ?_
    cases line with
    | nil => exact absurd same (by decide)
    | cons b line =>
      have l : lower b = 0x6C := by
        have first := congrArg head? same
        exact Option.some.inj first
      have c : lower b = 0x63 := by
        have first := congrArg head? other
        exact Option.some.inj first
      rw [l] at c
      exact absurd c (by decide)
  · cases found

/-! ## Numbers -/

theorem digit_toNat {b : UInt8} (digit : isDigit b = true) :
    (b - 0x30).toUInt32.toNat = b.toNat - 0x30 ∧ b.toNat - 0x30 < 10 := by
  simp only [isDigit, Bool.and_eq_true, decide_eq_true_eq] at digit
  have low : 48 ≤ b.toNat := digit.1
  have high : b.toNat ≤ 57 := digit.2
  refine ⟨?_, by omega⟩
  rw [UInt8.toNat_toUInt32, UInt8.toNat_sub_of_le _ _ (by simpa [UInt8.le_iff_toNat_le] using low)]
  rfl

theorem foldl_digits (v : Bytes) (digits : ∀ b ∈ v, isDigit b = true) (n : UInt32) :
    (v.foldl (fun n b => n * 10 + (b - 0x30).toUInt32) n).toNat =
      v.foldl (fun n b => n * 10 + (b.toNat - 0x30)) n.toNat % 4294967296 := by
  have general : ∀ (n : UInt32) (m : Nat), n.toNat = m % 4294967296 →
      (v.foldl (fun n b => n * 10 + (b - 0x30).toUInt32) n).toNat =
        v.foldl (fun n b => n * 10 + (b.toNat - 0x30)) m % 4294967296 := by
    induction v with
    | nil => exact fun n m same => same
    | cons b v ih =>
      obtain ⟨digit, digits⟩ := forall_mem_cons.mp digits
      intro n m same
      apply ih digits
      rw [UInt32.toNat_add, UInt32.toNat_mul, (digit_toNat digit).1, show (10 : UInt32).toNat = 10 from rfl]
      dsimp only
      omega
  exact general n n.toNat (Nat.mod_eq_of_lt n.toNat_lt).symm

theorem parseDec_eq (v : Bytes) : parseDec v = UInt32.ofNat (decimal (v.takeWhile isDigit)) := by
  apply UInt32.toNat_inj.mp
  unfold parseDec
  rw [foldl_digits _ (fun b inside => mem_takeWhile_imp inside) 0]
  rfl

/-- A number and blanks behind it are read as the number, kept to 32 bits. -/
theorem parseDec_raw {raw v : Bytes} (trimmed : v = raw.rdropWhile blank) (digits : ∀ b ∈ v, isDigit b = true) :
    parseDec raw = UInt32.ofNat (decimal v) := by
  have whole : raw.takeWhile isDigit = v := by
    have split : raw.rdropWhile blank ++ raw.rtakeWhile blank = raw := rdropWhile_append_rtakeWhile
    rw [← trimmed] at split
    rw [← split, takeWhile_append_of_pos digits]
    cases blanks : raw.rtakeWhile blank with
    | nil => simp
    | cons b more =>
      have first : blank b = true := mem_rtakeWhile_imp (by rw [blanks]; exact mem_cons_self)
      have stops : isDigit b = false := by
        simp only [blank, Bool.or_eq_true, decide_eq_true_eq] at first
        rcases first with rfl | rfl <;> decide
      rw [takeWhile_cons_of_neg (by simp [stops]), append_nil]
  rw [parseDec_eq, whole]

/-! ## The lines of a head -/

theorem line_declared {f v : Bytes} (h : Headers) (found : fieldValue lengthName f = some v)
    (digits : ∀ b ∈ v, isDigit b = true) :
    (h.line f).declared = UInt32.ofNat (decimal v) := by
  obtain ⟨raw, trimmed⟩ := headerValue_some found
  unfold Headers.line
  rw [show ascii "content-length:" = lengthName from rfl, raw]
  exact parseDec_raw trimmed digits

theorem line_location {f v : Bytes} (h : Headers) (found : fieldValue locationName f = some v) :
    (h.line f).location = (rawValue locationName f).take 256 ∧ (h.line f).redirect = true := by
  unfold Headers.line
  rw [show ascii "content-length:" = lengthName from rfl, headerValue_none (length_not_location found),
    show ascii "location:" = locationName from rfl, (headerValue_some found).1]
  exact ⟨rfl, rfl⟩

variable {fs : List Bytes}

theorem foldl_declared (others : ∀ f ∈ fs, fieldValue lengthName f = none) (h : Headers) :
    (fs.foldl Headers.line h).declared = h.declared := by
  refine foldlRecOn (motive := fun k : Headers => k.declared = h.declared) fs _ rfl fun k same f inside => same ▸ ?_
  unfold Headers.line
  rw [show ascii "content-length:" = lengthName from rfl, headerValue_none (others f inside)]
  dsimp only
  split <;> rfl

theorem foldl_location (others : ∀ f ∈ fs, fieldValue locationName f = none) (h : Headers) :
    (fs.foldl Headers.line h).location = h.location ∧ (fs.foldl Headers.line h).redirect = h.redirect := by
  refine foldlRecOn (motive := fun k : Headers => k.location = h.location ∧ k.redirect = h.redirect) fs _ ⟨rfl, rfl⟩
    fun k same f inside => ?_
  unfold Headers.line
  split
  · exact same
  rw [show ascii "location:" = locationName from rfl, headerValue_none (others f inside)]
  exact same

variable {g : Bytes → Option Bytes}

theorem one_field (one : (fs.filterMap g).length ≤ 1) :
    (∀ f ∈ fs, g f = none) ∨ ∃ front f back v, fs = front ++ f :: back ∧ g f = some v ∧
      (∀ x ∈ front, g x = none) ∧ ∀ x ∈ back, g x = none := by
  induction fs with
  | nil => exact .inl fun f inside => absurd inside not_mem_nil
  | cons f fs ih =>
    cases found : g f with
    | none =>
      rw [filterMap_cons_none found] at one
      rcases ih one with none' | ⟨front, f', back, v, split, some', before, after⟩
      · exact .inl (forall_mem_cons.mpr ⟨found, none'⟩)
      refine .inr ⟨f :: front, f', back, v, ?_, some', forall_mem_cons.mpr ⟨found, before⟩, after⟩
      rw [split]
      rfl
    | some v =>
      rw [filterMap_cons_some found, length_cons] at one
      have empty : fs.filterMap g = [] := eq_nil_of_length_eq_zero (by omega)
      exact .inr ⟨[], f, fs, v, rfl, found, fun x inside => absurd inside not_mem_nil, filterMap_eq_nil_iff.mp empty⟩

theorem filterMap_one {front back : List Bytes} {f v : Bytes} (found : g f = some v)
    (before : ∀ x ∈ front, g x = none) (after : ∀ x ∈ back, g x = none) : (front ++ f :: back).filterMap g = [v] := by
  rw [filterMap_append, filterMap_eq_nil_iff.mpr before, filterMap_cons_some found, filterMap_eq_nil_iff.mpr after]
  rfl

namespace Head

variable (head : Head)

/-- The length fits 32 bits, and it is zero or its line is not the last one. -/
def LengthReadable : Prop := ∀ n, head.contentLength = some n →
  n < 4294967296 ∧ (n = 0 ∨ ∀ f, head.fields.getLast? = some f → fieldValue lengthName f = none)

/-- The location is empty, or its line is not the last one and the value is what the first 256 octets
behind the blanks are. -/
def LocationReadable : Prop := ∀ f ∈ head.fields, ∀ v, fieldValue locationName f = some v →
  v = [] ∨ head.fields.getLast? ≠ some f ∧ (rawValue locationName f).take 256 = v

theorem walked_declared {c : Client} (fresh : c.bodyDeclared = 0) :
    (head.walked c).declared.toNat = head.contentLength.getD 0 ↔ head.LengthReadable := by
  unfold walked LengthReadable contentLength
  rcases one_field head.oneLength with none' | ⟨front, f, back, v, split, found, before, after⟩
  · rw [foldl_declared fun f inside => none' f (dropLast_subset _ inside), filterMap_eq_nil_iff.mpr none', fresh]
    exact ⟨fun _ n some' => (nomatch some'), fun _ => rfl⟩
  have digits := (head.number v (by rw [split, filterMap_one found before after]; exact mem_singleton.mpr rfl)).2
  rw [split, filterMap_one found before after]
  simp only [head?_cons, Option.map_some, Option.some.injEq, Option.getD_some, forall_eq']
  cases back with
  | nil =>
    rw [dropLast_concat, foldl_declared before, fresh, getLast?_concat]
    constructor
    · intro zero
      have zero : decimal v = 0 := zero.symm
      exact ⟨by omega, .inl zero⟩
    · rintro ⟨-, zero | last⟩
      · exact zero.symm
      · have := last f rfl
        rw [found] at this
        cases this
  | cons x back =>
    rw [dropLast_append_cons, dropLast_cons_cons, foldl_append, foldl_cons,
      foldl_declared fun y inside => after y (dropLast_subset _ inside), line_declared _ found digits,
        UInt32.toNat_ofNat']
    have small : (decimal v % 2 ^ 32 = decimal v) ↔ decimal v < 4294967296 := by omega
    rw [small, iff_self_and]
    intro _
    refine .inr fun y last => after y ?_
    rw [getLast?_append_of_ne_nil _ (cons_ne_nil _ _)] at last
    exact mem_of_getLast? last

section

variable {front back : List Bytes} {f v : Bytes} (split : head.fields = front ++ f :: back)
  (found : fieldValue locationName f = some v) (before : ∀ x ∈ front, fieldValue locationName x = none)
  (after : ∀ x ∈ back, fieldValue locationName x = none)

include split found before after

theorem location_eq : head.location = some v := by
  unfold location
  rw [split, filterMap_one found before after]
  rfl

/-- Only the line of the location has to be looked at. -/
theorem locationReadable_iff : head.LocationReadable ↔ v = [] ∨ back ≠ [] ∧ (rawValue locationName f).take 256 = v := by
  have last : head.fields.getLast? ≠ some f ↔ back ≠ [] := by
    rw [split]
    cases back with
    | nil => simp
    | cons x back =>
      simp only [ne_eq, cons_ne_nil, not_false_eq_true, iff_true]
      rw [getLast?_append_of_ne_nil _ (cons_ne_nil _ _)]
      intro last
      have := after f (mem_of_getLast? last)
      rw [found] at this
      cases this
  constructor
  · intro readable
    have here := readable f (by rw [split]; exact mem_append_right _ mem_cons_self) v found
    rwa [last] at here
  · intro here x inside w value
    have same : x = f := by
      rw [split, mem_append, mem_cons] at inside
      rcases inside with inside | same | inside
      · rw [before x inside] at value
        cases value
      · exact same
      · rw [after x inside] at value
        cases value
    subst same
    rw [found] at value
    cases value
    rwa [last]

end

theorem rawValue_eq_nil {f : Bytes} (found : fieldValue locationName f = some []) : rawValue locationName f = [] := by
  have trimmed := (headerValue_some found).2
  have blanks := rdropWhile_eq_nil_iff.mp trimmed.symm
  cases raw : rawValue locationName f with
  | nil => rfl
  | cons b more =>
    have head := head?_dropWhile_not blank (f.drop locationName.length)
    rw [← rawValue, raw] at head
    rw [raw] at blanks
    have first := blanks b mem_cons_self
    simp [first] at head

theorem walked_location {c : Client} (fresh : c.location = []) :
    ((head.walked c).location = head.location.getD [] ↔ head.LocationReadable) ∧
      ((head.walked c).location ≠ [] → (head.walked c).redirect = true) := by
  rcases one_field head.oneLocation with none' | ⟨front, f, back, v, split, found, before, after⟩
  · unfold walked LocationReadable location
    obtain ⟨same, flag⟩ := foldl_location (fun f inside => none' f (dropLast_subset _ inside))
      ⟨[], c.bodyDeclared, c.redirect, c.location⟩
    rw [same, filterMap_eq_nil_iff.mpr none', fresh]
    refine ⟨⟨fun _ f inside v value => ?_, fun _ => rfl⟩, fun some' => absurd rfl some'⟩
    rw [none' f inside] at value
    cases value
  · rw [head.locationReadable_iff split found before after, head.location_eq split found before after]
    unfold walked
    rw [split]
    cases back with
    | nil =>
      obtain ⟨same, flag⟩ := foldl_location before ⟨[], c.bodyDeclared, c.redirect, c.location⟩
      rw [dropLast_concat, same, fresh]
      refine ⟨⟨fun empty => .inl empty.symm, ?_⟩, fun some' => absurd rfl some'⟩
      rintro (empty | ⟨more, -⟩)
      · exact empty.symm
      · exact absurd rfl more
    | cons x back =>
      obtain ⟨same, flag⟩ := foldl_location (fun y inside => after y (dropLast_subset _ inside))
        ((front.foldl Headers.line ⟨[], c.bodyDeclared, c.redirect, c.location⟩).line f)
      obtain ⟨value, noticed⟩ :=
        line_location (front.foldl Headers.line ⟨[], c.bodyDeclared, c.redirect, c.location⟩) found
      rw [dropLast_append_cons, dropLast_cons_cons, foldl_append, foldl_cons, same, flag, value, noticed]
      refine ⟨⟨fun shown => .inr ⟨cons_ne_nil _ _, shown⟩, ?_⟩, fun _ => rfl⟩
      rintro (empty | ⟨-, shown⟩)
      · subst empty
        rw [rawValue_eq_nil found]
        rfl
      · exact shown

end Head

end BarryOS.Net.Http
