import BarryOS.Lib.Bytes
import Mathlib.Data.List.Chain

/-!
# UTF-8

`validUtf8` is the acceptance test of `core::str::from_utf8`: no overlong forms, no
surrogates, nothing above U+10FFFF. A `Str` is a `&str`: bytes that pass it.
-/

namespace BarryOS.Lib

/-- A continuation byte. -/
def isCont (b : UInt8) : Bool := 0x80 ≤ b && b ≤ 0xBF

/-- The second byte that may follow the lead of a three-byte sequence. -/
def second3 (a b : UInt8) : Bool :=
  if a = 0xE0 then 0xA0 ≤ b && b ≤ 0xBF
  else if a = 0xED then 0x80 ≤ b && b ≤ 0x9F
  else isCont b

/-- The second byte that may follow the lead of a four-byte sequence. -/
def second4 (a b : UInt8) : Bool :=
  if a = 0xF0 then 0x90 ≤ b && b ≤ 0xBF
  else if a = 0xF4 then 0x80 ≤ b && b ≤ 0x8F
  else isCont b

def validUtf8 : Bytes → Bool
  | [] => true
  | a :: l =>
    if a < 0x80 then validUtf8 l
    else match l with
      | [] => false
      | b :: l =>
        if 0xC2 ≤ a && a ≤ 0xDF then isCont b && validUtf8 l
        else match l with
          | [] => false
          | c :: l =>
            if 0xE0 ≤ a && a ≤ 0xEF then second3 a b && isCont c && validUtf8 l
            else match l with
              | [] => false
              | d :: l =>
                0xF0 ≤ a && a ≤ 0xF4 && second4 a b && isCont c && isCont d && validUtf8 l

/-- A string slice. -/
structure Str where
  bytes : Bytes
  utf8 : validUtf8 bytes = true
  deriving DecidableEq, Repr

theorem validUtf8_letter (i : Nat) : validUtf8 [0x61 + UInt8.ofNat (i % 26)] = true := by
  have all : ∀ k < 26, validUtf8 [0x61 + UInt8.ofNat k] = true := by decide
  exact all _ (Nat.mod_lt _ (by decide))

/-- The string of the `i`-th lower-case letter. -/
def Str.letter (i : Nat) : Str := ⟨[0x61 + UInt8.ofNat (i % 26)], validUtf8_letter i⟩

/-- `core::str::from_utf8(bytes)`. -/
def Str.ofUtf8 (bytes : Bytes) : Option Str := if h : validUtf8 bytes = true then some ⟨bytes, h⟩ else none

/-- `core::str::from_utf8(bytes).unwrap_or(other)`. -/
def Str.ofUtf8Or (other : Str) (bytes : Bytes) : Str :=
  if h : validUtf8 bytes = true then ⟨bytes, h⟩ else other

@[simp] theorem Str.ofUtf8Or_bytes (other s : Str) : Str.ofUtf8Or other s.bytes = s := by
  simp [Str.ofUtf8Or, s.utf8]

/-! ## Decoding -/

/-- The replacement character U+FFFD. -/
def replacement : Char := Char.ofNat 0xFFFD

/-- The low six bits of a continuation byte, above those that follow. -/
def contBits (b : UInt8) (shift : Nat) : Nat := (b.toNat % 64) * 2 ^ shift

/-- `String::from_utf8_lossy`: every maximal part of a sequence that breaks off becomes one
replacement character. -/
def decodeLossy : Bytes → List Char
  | [] => []
  | a :: l =>
    if a < 0x80 then Char.ofNat a.toNat :: decodeLossy l
    else if 0xC2 ≤ a && a ≤ 0xDF then
      match l with
      | [] => [replacement]
      | b :: l' =>
        if isCont b then Char.ofNat (a.toNat % 32 * 2 ^ 6 + contBits b 0) :: decodeLossy l'
        else replacement :: decodeLossy (b :: l')
    else if 0xE0 ≤ a && a ≤ 0xEF then
      match l with
      | [] => [replacement]
      | b :: l' =>
        if second3 a b then
          match l' with
          | [] => [replacement]
          | c :: l'' =>
            if isCont c then
              Char.ofNat (a.toNat % 16 * 2 ^ 12 + contBits b 6 + contBits c 0) :: decodeLossy l''
            else replacement :: decodeLossy (c :: l'')
        else replacement :: decodeLossy (b :: l')
    else if 0xF0 ≤ a && a ≤ 0xF4 then
      match l with
      | [] => [replacement]
      | b :: l' =>
        if second4 a b then
          match l' with
          | [] => [replacement]
          | c :: l'' =>
            if isCont c then
              match l'' with
              | [] => [replacement]
              | d :: l''' =>
                if isCont d then
                  Char.ofNat (a.toNat % 8 * 2 ^ 18 + contBits b 12 + contBits c 6 + contBits d 0) ::
                    decodeLossy l'''
                else replacement :: decodeLossy (d :: l''')
            else replacement :: decodeLossy (c :: l'')
        else replacement :: decodeLossy (b :: l')
    else replacement :: decodeLossy l

/-- The bytes of a text. -/
def encodeUtf8 (text : List Char) : Bytes := text.flatMap String.utf8EncodeChar

def bytesOf (s : String) : Bytes := encodeUtf8 s.toList

section Pieces

open List

/-! ## Decoding in pieces -/

/-- The tests for the bytes after a lead byte. -/
def followers (a : UInt8) : List (UInt8 → Bool) :=
  if a < 0x80 then []
  else if 0xC2 ≤ a && a ≤ 0xDF then [isCont]
  else if 0xE0 ≤ a && a ≤ 0xEF then [second3 a, isCont]
  else if 0xF0 ≤ a && a ≤ 0xF4 then [second4 a, isCont, isCont]
  else []

/-- How many bytes pass the tests, one after the other. -/
def passing : List (UInt8 → Bool) → Bytes → Nat
  | t :: ts, b :: l => if t b then passing ts l + 1 else 0
  | _, _ => 0

theorem passing_le (ts : List (UInt8 → Bool)) (l : Bytes) : passing ts l ≤ l.length := by
  fun_induction passing ts l <;> simp_all

theorem passing_append (ts : List (UInt8 → Bool)) (l m : Bytes) : passing ts (l ++ m) =
    if passing ts l < l.length then passing ts l else l.length + passing (ts.drop l.length) m := by
  induction l generalizing ts with
  | nil => simp
  | cons b l ih =>
    cases ts with
    | nil => simp [passing]
    | cons t ts =>
      simp only [cons_append, passing, length_cons, drop_succ_cons]
      split
      · rw [ih]
        split <;> split <;> omega
      · simp

theorem passing_one (ts : List (UInt8 → Bool)) (x : UInt8) (m : Bytes) :
    passing ts [x] = min (passing ts (x :: m)) 1 := by
  cases ts with
  | nil => simp [passing]
  | cons t ts =>
    simp only [passing]
    split <;> simp

/-- The last sequence of the bytes goes on with the byte behind them. -/
def torn : Bytes → UInt8 → Bool
  | [], _ => false
  | a :: l, x =>
    if passing (followers a) l = l.length then passing (followers a) (l ++ [x]) == l.length + 1
    else torn (l.drop (passing (followers a) l)) x
termination_by l => l.length
decreasing_by rw [length_drop, length_cons]; omega

/-- One character for the first byte and all that belongs to it. -/
theorem decodeLossy_cons (a : UInt8) (l : Bytes) : ∃ c, decodeLossy (a :: l.take (passing (followers a) l)) = [c] ∧
    decodeLossy (a :: l) = c :: decodeLossy (l.drop (passing (followers a) l)) := by
  rw [decodeLossy.eq_def (a :: l)]
  unfold followers
  dsimp only
  repeat' split
  all_goals simp [decodeLossy, passing, *]

theorem followers_alone (a : UInt8) : ∀ t ∈ followers a, ∀ b, t b = true → followers b = [] := by
  intro t ht b pass
  have cont : 0x80 ≤ b ∧ b ≤ 0xBF := by
    unfold followers second3 second4 isCont at ht
    grind
  unfold followers
  grind

/-- The bytes that go on with a sequence are characters of their own without it. -/
theorem decodeLossy_alone (ts : List (UInt8 → Bool)) (alone : ∀ t ∈ ts, ∀ b, t b = true → followers b = [])
    (l : Bytes) :
    (decodeLossy l).length = passing ts l + (decodeLossy (l.drop (passing ts l))).length := by
  fun_induction passing ts l with
  | case1 t ts b l pass ih =>
    obtain ⟨c, -, decoded⟩ := decodeLossy_cons b l
    rw [alone t mem_cons_self b pass, show passing [] l = 0 by rw [passing]; simp] at decoded
    rw [decoded, length_cons, drop_zero, drop_succ_cons, ih fun t ht => alone t (mem_cons_of_mem _ ht)]
    omega
  | case2 | case3 => simp

/-- Where nothing is torn, the parts have the characters of the whole, and otherwise more. -/
theorem decodeLossy_append (l : Bytes) (x : UInt8) (m : Bytes) :
    decodeLossy (l ++ x :: m) = decodeLossy l ++ decodeLossy (x :: m) ∧ torn l x = false ∨
    (decodeLossy (l ++ x :: m)).length < (decodeLossy l).length + (decodeLossy (x :: m)).length ∧ torn l x = true := by
  fun_induction torn l x with
  | case1 => simp [decodeLossy]
  | case2 a l x full =>
    obtain ⟨c, one, here⟩ := decodeLossy_cons a l
    obtain ⟨c', one', whole⟩ := decodeLossy_cons a (l ++ x :: m)
    have grown (m : Bytes) := passing_append (followers a) l m
    simp only [full, lt_irrefl, if_false] at grown
    rw [full, take_length] at one
    rw [full] at here
    rw [grown, passing_one _ x m]
    rw [grown, drop_length_add_append] at whole
    rw [cons_append, whole, here]
    have alone := decodeLossy_alone ((followers a).drop l.length)
      (fun t ht => followers_alone a t (mem_of_mem_drop ht)) (x :: m)
    by_cases ends : passing ((followers a).drop l.length) (x :: m) = 0
    · rw [grown, ends, Nat.add_zero, take_left, one] at one'
      cases one'
      simp [ends, decodeLossy]
    · refine .inr ⟨?_, ?_⟩
      · simp only [length_cons]
        omega
      · simp only [beq_iff_eq]
        omega
  | case3 a l x open' ih =>
    obtain ⟨c, one, here⟩ := decodeLossy_cons a l
    obtain ⟨c', one', whole⟩ := decodeLossy_cons a (l ++ x :: m)
    have most := passing_le (followers a) l
    rw [passing_append, if_pos (by omega)] at one' whole
    rw [take_append_of_le_length most, one] at one'
    cases one'
    rw [cons_append, whole, here, drop_append_of_le_length most]
    rcases ih with ⟨eq, not⟩ | ⟨lt, torn⟩
    · exact .inl ⟨by rw [eq]; rfl, not⟩
    · exact .inr ⟨by simp only [length_cons]; omega, torn⟩

/-- Decoded piece by piece, a text has the characters it has as a whole unless a sequence is torn
between two pieces, and then it has more. -/
theorem decodeLossy_flatten {cs : List Bytes} (ne : ∀ c ∈ cs, c ≠ []) :
    cs.flatMap decodeLossy = decodeLossy cs.flatten ∧ (cs.IsChain fun c d => ∀ x ∈ d.head?, torn c x = false) ∨
    (decodeLossy cs.flatten).length < (cs.flatMap decodeLossy).length ∧
      ¬ cs.IsChain fun c d => ∀ x ∈ d.head?, torn c x = false := by
  induction cs with
  | nil => simp [decodeLossy]
  | cons c cs ih =>
    cases cs with
    | nil => simp
    | cons d cs =>
      obtain ⟨x, d, rfl⟩ := exists_cons_of_ne_nil (ne d (by simp))
      have border := decodeLossy_append c x (d ++ cs.flatten)
      rw [flatMap_cons]
      grind

/-- The pieces of a list are not empty, and together they are the list. -/
theorem toChunks_go {α : Type} (n : Nat) (l : List α) (piece : Array α) (pieces : Array (List α))
    (start : piece.toList ≠ []) (ne : ∀ c ∈ pieces.toList, c ≠ []) :
    (toChunks.go n l piece pieces).flatten = pieces.toList.flatten ++ piece.toList ++ l ∧
      ∀ c ∈ toChunks.go n l piece pieces, c ≠ [] := by
  induction l generalizing piece pieces with
  | nil => grind [toChunks.go]
  | cons x l ih =>
    rw [toChunks.go]
    split
    · obtain ⟨flat, ne⟩ := ih ((Array.mkEmpty n).push x) (pieces.push piece.toList) (by simp) (by grind)
      exact ⟨by rw [flat]; simp, ne⟩
    · obtain ⟨flat, ne⟩ := ih (piece.push x) pieces (by simp) ne
      exact ⟨by rw [flat]; simp, ne⟩

theorem toChunks_spec {α : Type} (n : Nat) (l : List α) :
    (l.toChunks n).flatten = l ∧ ∀ c ∈ l.toChunks n, c ≠ [] := by
  unfold toChunks
  split
  · simp
  · simp_all
  · exact toChunks_go n _ _ _ (by simp) (by simp)

end Pieces

end BarryOS.Lib
