import BarryOS.Lib.Utf8
import Mathlib.Data.List.DropRight

/-!
# Cutting strings

A string cut at an ASCII character gives strings again: no octet of a longer sequence is ASCII.
So `split`, `rsplit_once` and `trim_end_matches` of a `&str` work on its octets.
-/

namespace BarryOS.Lib

open List

variable {c : UInt8}

theorem isCont_ascii (ascii : c < 0x80) : isCont c = false := by
  simp only [isCont, Bool.and_eq_false_iff, decide_eq_false_iff_not, UInt8.not_le]
  exact .inl ascii

theorem second3_ascii (a : UInt8) (ascii : c < 0x80) : second3 a c = false := by
  have small : c < 0xA0 := UInt8.lt_of_lt_of_le ascii (by decide)
  unfold second3
  split
  · simp [UInt8.not_le.mpr small]
  split
  · simp [UInt8.not_le.mpr ascii]
  · exact isCont_ascii ascii

theorem second4_ascii (a : UInt8) (ascii : c < 0x80) : second4 a c = false := by
  have small : c < 0x90 := UInt8.lt_of_lt_of_le ascii (by decide)
  unfold second4
  split
  · simp [UInt8.not_le.mpr small]
  split
  · simp [UInt8.not_le.mpr ascii]
  · exact isCont_ascii ascii

theorem validUtf8_nil : validUtf8 [] = true := by
  simp [validUtf8]

/-- Text can be cut at an ASCII character. -/
theorem validUtf8_append_cons (ascii : c < 0x80) (a b : Bytes) :
    validUtf8 (a ++ c :: b) = (validUtf8 a && validUtf8 b) := by
  have cont := isCont_ascii ascii
  fun_induction validUtf8 a with
  | case1 =>
    rw [validUtf8.eq_def]
    simp [ascii]
  | case2 x l small ih =>
    rw [validUtf8.eq_def]
    simp [small, ih]
  | case3 x big =>
    -- the ASCII character stands where a continuation byte has to
    rw [validUtf8.eq_def]
    rcases b with _ | ⟨y, _ | ⟨z, b⟩⟩ <;>
      simp [big, cont, second3_ascii x ascii, second4_ascii x ascii]
  | case4 x big y l two ih =>
    rw [validUtf8.eq_def]
    simp [big, two, ih, Bool.and_assoc]
  | case5 x big y two =>
    rw [validUtf8.eq_def]
    cases b <;> simp [big, two, cont]
  | case6 x big y two z l three ih =>
    rw [validUtf8.eq_def]
    simp [big, two, three, ih, Bool.and_assoc]
  | case7 x big y two z three =>
    rw [validUtf8.eq_def]
    simp [big, two, three, cont]
  | case8 x big y two z three w l ih =>
    rw [validUtf8.eq_def]
    simp [big, two, three, ih, Bool.and_assoc]

theorem validUtf8_concat (ascii : c < 0x80) (a : Bytes) : validUtf8 (a ++ [c]) = validUtf8 a := by
  rw [validUtf8_append_cons ascii, validUtf8_nil, Bool.and_true]

variable {l : Bytes}

theorem validUtf8_append_ascii (a : Bytes) (ascii : ∀ c ∈ l, c < 0x80) : validUtf8 (a ++ l) = validUtf8 a := by
  induction l generalizing a with
  | nil => rw [append_nil]
  | cons c l ih =>
    obtain ⟨first, more⟩ := forall_mem_cons.mp ascii
    rw [← singleton_append, ← append_assoc, ih _ more, validUtf8_concat first]

theorem validUtf8_ascii_append {a : Bytes} (ascii : ∀ c ∈ a, c < 0x80) (l : Bytes) :
    validUtf8 (a ++ l) = validUtf8 l := by
  induction a with
  | nil => rfl
  | cons c a ih =>
    obtain ⟨first, more⟩ := forall_mem_cons.mp ascii
    have front := validUtf8_append_cons first [] (a ++ l)
    rw [validUtf8_nil, ih more] at front
    exact front

theorem validUtf8_intercalate (ascii : c < 0x80) (pieces : List Bytes) :
    validUtf8 ([c].intercalate pieces) = pieces.all validUtf8 := by
  induction pieces with
  | nil => exact validUtf8_nil
  | cons a rest ih =>
    cases rest with
    | nil => simp
    | cons b rest =>
      rw [intercalate_cons_cons, append_assoc, singleton_append, validUtf8_append_cons ascii, ih]
      simp

theorem validUtf8_splitOn (ascii : c < 0x80) {l piece : Bytes} (valid : validUtf8 l = true)
    (member : piece ∈ l.splitOn c) : validUtf8 piece = true := by
  have whole : [c].intercalate (l.splitOn c) = l := intercalate_splitOn c
  rw [← whole, validUtf8_intercalate ascii, all_eq_true] at valid
  exact valid piece member

theorem length_intercalate (c : UInt8) (first : Bytes) (pieces : List Bytes) :
    ([c].intercalate (first :: pieces)).length + 1 = ((first :: pieces).map fun piece => 1 + piece.length).sum := by
  induction pieces generalizing first with
  | nil =>
    simp [Nat.add_comm]
  | cons second pieces ih =>
    rw [intercalate_cons_cons, map_cons, sum_cons, ← ih second]
    simp only [length_append, length_singleton]
    omega

/-- The pieces of a text, with the separators between them, are as long as the text. -/
theorem length_splitOn (c : UInt8) (l : Bytes) :
    ((l.splitOn c).map fun piece => 1 + piece.length).sum = l.length + 1 := by
  have whole : [c].intercalate (l.splitOn c) = l := intercalate_splitOn c
  obtain ⟨first, pieces, split⟩ := exists_cons_of_ne_nil (splitOn_ne_nil c l)
  rw [split] at whole ⊢
  rw [← length_intercalate, whole]

theorem splitOn_of_not_mem (no : c ∉ l) : l.splitOn c = [l] := by
  have whole : ([c].intercalate [l]).splitOn c = [l] := splitOn_intercalate c (by simpa using no) (by simp)
  simpa using whole

theorem validUtf8_rdropWhile (ascii : c < 0x80) (l : Bytes) (valid : validUtf8 l = true) :
    validUtf8 (l.rdropWhile (· == c)) = true := by
  induction l using reverseRecOn with
  | nil => exact valid
  | append_singleton l x ih =>
    rw [rdropWhile_concat]
    split
    next same =>
      rw [eq_of_beq same, validUtf8_concat ascii] at valid
      exact ih valid
    · exact valid

/-- What stands before the last occurrence of an octet, and what behind it. -/
def cutLast (c : UInt8) (l : Bytes) : Option (Bytes × Bytes) :=
  match l.reverse.dropWhile (· != c) with
  | [] => none
  | _ :: front => some (front.reverse, (l.reverse.takeWhile (· != c)).reverse)

theorem cutLast_some {l front back : Bytes} (cut : cutLast c l = some (front, back)) :
    l = front ++ c :: back ∧ c ∉ back := by
  unfold cutLast at cut
  split at cut
  · cases cut
  rename_i x rest found
  cases cut
  have here : x = c := by
    have head := head?_dropWhile_not (· != c) l.reverse
    rw [found] at head
    simpa using head
  subst here
  have whole := takeWhile_append_dropWhile (p := (· != x)) (l := l.reverse)
  rw [found] at whole
  refine ⟨?_, ?_⟩
  · have turned := congrArg reverse whole
    simpa using turned.symm
  · intro inside
    rw [mem_reverse] at inside
    have := mem_takeWhile_imp inside
    simp at this

theorem cutLast_none : cutLast c l = none ↔ c ∉ l := by
  unfold cutLast
  split
  next none' =>
    rw [dropWhile_eq_nil_iff] at none'
    simp only [true_iff]
    intro inside
    have := none' c (mem_reverse.mpr inside)
    simp at this
  next x rest found =>
    simp only [reduceCtorEq, false_iff, not_not]
    have head := head?_dropWhile_not (· != c) l.reverse
    rw [found] at head
    have here : x = c := by simpa using head
    have member : x ∈ l.reverse := (dropWhile_sublist _).subset (by rw [found]; simp)
    rw [here] at member
    exact mem_reverse.mp member

theorem validUtf8_cutLast (ascii : c < 0x80) {l front back : Bytes} (valid : validUtf8 l = true)
    (cut : cutLast c l = some (front, back)) : validUtf8 front = true ∧ validUtf8 back = true := by
  rw [(cutLast_some cut).1, validUtf8_append_cons ascii, Bool.and_eq_true] at valid
  exact valid

namespace Str

def empty : Str := ⟨[], validUtf8_nil⟩

/-- `s.split(c)`. -/
def split (s : Str) (c : UInt8) (ascii : c < 0x80) : List Str :=
  (s.bytes.splitOn c).pmap Str.mk fun _ member => validUtf8_splitOn ascii s.utf8 member

/-- `s.trim_end_matches(c)`. -/
def trimEnd (s : Str) (c : UInt8) (ascii : c < 0x80) : Str :=
  ⟨s.bytes.rdropWhile (· == c), validUtf8_rdropWhile ascii s.bytes s.utf8⟩

/-- `s.rfind(c)`, with the slices before and behind it. -/
def rsplitOnce (s : Str) (c : UInt8) (ascii : c < 0x80) : Option (Str × Str) :=
  match cut : cutLast c s.bytes with
  | none => none
  | some (front, back) =>
    some (⟨front, (validUtf8_cutLast ascii s.utf8 cut).1⟩, ⟨back, (validUtf8_cutLast ascii s.utf8 cut).2⟩)

@[simp] theorem split_bytes (s : Str) (c : UInt8) (ascii : c < 0x80) :
    (s.split c ascii).map Str.bytes = s.bytes.splitOn c := by
  unfold split
  rw [map_pmap]
  simp

theorem ext_bytes {s t : Str} (same : s.bytes = t.bytes) : s = t := by
  cases s
  cases t
  cases same
  rfl

theorem rsplitOnce_some {s front back : Str} {ascii : c < 0x80}
    (cut : s.rsplitOnce c ascii = some (front, back)) : s.bytes = front.bytes ++ c :: back.bytes ∧ c ∉ back.bytes := by
  unfold rsplitOnce at cut
  split at cut
  · cases cut
  rename_i found
  cases cut
  exact cutLast_some found

theorem rsplitOnce_none {s : Str} {ascii : c < 0x80} (cut : s.rsplitOnce c ascii = none) : c ∉ s.bytes := by
  unfold rsplitOnce at cut
  split at cut
  next found => exact cutLast_none.mp found
  · cases cut

end Str

end BarryOS.Lib
