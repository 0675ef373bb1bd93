import Mathlib.Algebra.Ring.Nat
import Mathlib.Data.List.Basic

/-!
# Octet strings

Slices are lists of octets. The fixed-width integers travel in network order
(`be`) on the wire and in little-endian order (`le`) on the disk.
-/

namespace BarryOS.Lib

open List Nat

abbrev Bytes := List UInt8

def be16 (v : UInt16) : Bytes := [(v >>> 8).toUInt8, v.toUInt8]

def be32 (v : UInt32) : Bytes :=
  [(v >>> 24).toUInt8, (v >>> 16).toUInt8, (v >>> 8).toUInt8, v.toUInt8]

def be64 (v : UInt64) : Bytes :=
  [(v >>> 56).toUInt8, (v >>> 48).toUInt8, (v >>> 40).toUInt8, (v >>> 32).toUInt8,
    (v >>> 24).toUInt8, (v >>> 16).toUInt8, (v >>> 8).toUInt8, v.toUInt8]

/-- `b[i]`, for the reads whose bound the caller has checked. -/
def octet (b : Bytes) (i : Nat) : UInt8 := b.getD i 0

theorem octet_eq_getElem {b : Bytes} {i : Nat} (inside : i < b.length) : octet b i = b[i] := by
  rw [octet, getD_eq_getElem?_getD, List.getElem?_eq_getElem inside, Option.getD_some]

theorem getElem?_octet {b : Bytes} {i : Nat} (inside : i < b.length) : b[i]? = some (octet b i) := by
  rw [octet_eq_getElem inside, List.getElem?_eq_getElem inside]

/-- `u16::from_be_bytes` of the two octets at `i`. -/
def be16At (b : Bytes) (i : Nat) : UInt16 :=
  ((octet b i).toUInt16 <<< 8) ||| (octet b (i + 1)).toUInt16

/-- The three-octet length of a TLS handshake header. -/
def be24At (b : Bytes) (i : Nat) : Nat :=
  (octet b i).toNat * 65536 + (octet b (i + 1)).toNat * 256 + (octet b (i + 2)).toNat

/-- `u32::from_be_bytes` of the four octets at `i`. -/
def be32At (b : Bytes) (i : Nat) : UInt32 :=
  ((octet b i).toUInt32 <<< 24) ||| ((octet b (i + 1)).toUInt32 <<< 16) |||
    ((octet b (i + 2)).toUInt32 <<< 8) ||| (octet b (i + 3)).toUInt32

/-- The three octets of a length below 2^24. -/
def be24 (n : Nat) : Bytes := [UInt8.ofNat (n / 65536), UInt8.ofNat (n / 256), UInt8.ofNat n]

theorem shiftLeft_or (a b k : Nat) (below : b < 2 ^ k) : a <<< k ||| b = a * 2 ^ k + b := by
  rw [← shiftLeft_add_eq_or_of_lt below, shiftLeft_eq]

variable (b : Bytes) (i : Nat)

theorem be16At_toNat : (be16At b i).toNat = (octet b i).toNat * 256 + (octet b (i + 1)).toNat := by
  have hi := (octet b i).toNat_lt
  have hl := (octet b (i + 1)).toNat_lt
  have join : (octet b i).toNat <<< 8 ||| (octet b (i + 1)).toNat =
      (octet b i).toNat * 256 + (octet b (i + 1)).toNat := shiftLeft_or _ _ 8 hl
  simp only [be16At, UInt16.toNat_or, UInt16.toNat_shiftLeft, UInt8.toNat_toUInt16]
  rw [show UInt16.toNat 8 % 16 = 8 from rfl, mod_eq_of_lt (by rw [shiftLeft_eq]; omega), join]

theorem join32 (a b c d : Nat) (hb : b < 256) (hc : c < 256) (hd : d < 256) :
    a <<< 24 ||| b <<< 16 ||| c <<< 8 ||| d = a * 16777216 + b * 65536 + c * 256 + d := by
  have low : c <<< 8 ||| d = c * 256 + d := shiftLeft_or c d 8 hd
  have mid : b <<< 16 ||| (c * 256 + d) = b * 65536 + (c * 256 + d) := shiftLeft_or b _ 16 (by omega)
  have high : a <<< 24 ||| (b * 65536 + (c * 256 + d)) = a * 16777216 + (b * 65536 + (c * 256 + d)) :=
    shiftLeft_or a _ 24 (by omega)
  rw [Nat.or_assoc, Nat.or_assoc, low, mid, high]
  omega

theorem be32At_toNat : (be32At b i).toNat = (octet b i).toNat * 16777216 + (octet b (i + 1)).toNat * 65536 +
      (octet b (i + 2)).toNat * 256 + (octet b (i + 3)).toNat := by
  have h0 := (octet b i).toNat_lt
  have h1 := (octet b (i + 1)).toNat_lt
  have h2 := (octet b (i + 2)).toNat_lt
  have h3 := (octet b (i + 3)).toNat_lt
  rw [← join32 _ _ _ _ h1 h2 h3]
  simp only [be32At, UInt32.toNat_or, UInt32.toNat_shiftLeft, UInt8.toNat_toUInt32]
  rw [show UInt32.toNat 24 % 32 = 24 from rfl, show UInt32.toNat 16 % 32 = 16 from rfl,
    show UInt32.toNat 8 % 32 = 8 from rfl,
    mod_eq_of_lt (by rw [shiftLeft_eq]; omega),
    mod_eq_of_lt (by rw [shiftLeft_eq]; omega),
    mod_eq_of_lt (by rw [shiftLeft_eq]; omega)]

@[simp] theorem be16At_be16 (v : UInt16) (rest : Bytes) : be16At (be16 v ++ rest) 0 = v := by
  apply UInt16.toNat_inj.mp
  have bound := v.toNat_lt
  rw [be16At_toNat]
  simp [be16, octet]
  omega

@[simp] theorem be32At_be32 (v : UInt32) (rest : Bytes) : be32At (be32 v ++ rest) 0 = v := by
  apply UInt32.toNat_inj.mp
  have bound := v.toNat_lt
  rw [be32At_toNat]
  simp [be32, octet]
  omega

@[simp] theorem be32_length (v : UInt32) : (be32 v).length = 4 := rfl

variable (n : Nat)

@[simp] theorem be24_length : (be24 n).length = 3 := rfl

@[simp] theorem be64_length (v : UInt64) : (be64 v).length = 8 := rfl

/-- A 32-bit number is found again in its eight octets. -/
theorem be64_injective {a b : UInt32} (same : be64 a.toUInt64 = be64 b.toUInt64) : a = b := by
  simp only [be64, List.cons.injEq, and_true] at same
  obtain ⟨-, -, -, -, h3, h2, h1, h0⟩ := same
  have h3 := congrArg UInt8.toNat h3
  have h2 := congrArg UInt8.toNat h2
  have h1 := congrArg UInt8.toNat h1
  have h0 := congrArg UInt8.toNat h0
  have ha := a.toNat_lt
  have hb := b.toNat_lt
  simp at h0 h1 h2 h3
  apply UInt32.toNat_inj.mp
  omega

/-- Three octets are the length they spell. -/
theorem be24_be24At (long : 3 ≤ b.length) : b = be24 (be24At b 0) ++ b.drop 3 := by
  rcases b with _ | ⟨x, _ | ⟨y, _ | ⟨z, rest⟩⟩⟩
  · simp at long
  · simp at long
  · simp at long
  · have hx := x.toNat_lt
    have hy := y.toNat_lt
    have hz := z.toNat_lt
    simp only [be24, be24At, octet, getD_cons_zero, getD_cons_succ, drop_succ_cons,
      drop_zero, cons_append, nil_append, List.cons.injEq, and_true]
    refine ⟨?_, ?_, ?_⟩ <;> (apply UInt8.toNat_inj.mp; rw [UInt8.toNat_ofNat']; omega)

theorem be24At_be24 (small : n < 16777216) (rest : Bytes) : be24At (be24 n ++ rest) 0 = n := by
  simp [be24At, be24, octet]
  omega

theorem be24At_lt : be24At b i < 16777216 := by
  have h0 := (octet b i).toNat_lt
  have h1 := (octet b (i + 1)).toNat_lt
  have h2 := (octet b (i + 2)).toNat_lt
  unfold be24At
  omega

/-- `b[i..j]`. -/
def slice (b : Bytes) (i j : Nat) : Bytes := (b.drop i).take (j - i)

@[simp] theorem slice_length (i j : Nat) (h : j ≤ b.length) : (slice b i j).length = j - i := by
  simp only [slice, length_take, length_drop]
  omega

/-- `&b[i..j]`, which panics beyond the end. -/
def slice? (b : Bytes) (i j : Nat) : Option Bytes := if i ≤ j ∧ j ≤ b.length then some (slice b i j) else none

theorem octet_slice {j k : Nat} (inside : i + k < j) : octet (slice b i j) k = octet b (i + k) := by
  have short : k < j - i := by omega
  simp [octet, slice, short]

theorem be16At_slice {j k : Nat} (inside : i + k + 1 < j) : be16At (slice b i j) k = be16At b (i + k) := by
  unfold be16At
  rw [octet_slice b i (by omega), octet_slice b i (by omega), add_assoc]

theorem octet_drop (i k : Nat) : octet (b.drop i) k = octet b (i + k) := by
  simp [octet]

theorem be16At_drop (i k : Nat) : be16At (b.drop i) k = be16At b (i + k) := by
  simp only [be16At, octet_drop, add_assoc]

theorem be32At_drop (i k : Nat) : be32At (b.drop i) k = be32At b (i + k) := by
  simp only [be32At, octet_drop, add_assoc]

/-- An array of `n` octets, given octet by octet. -/
def octets (n : Nat) (f : Nat → UInt8) : Bytes := (List.range n).map f

@[simp] theorem octets_length (f : Nat → UInt8) : (octets n f).length = n := by
  simp [octets]

/-- `[0; n]`. -/
def zeros (n : Nat) : Bytes := List.replicate n 0

@[simp] theorem zeros_length : (zeros n).length = n := by
  simp [zeros]

/-- `n.to_le_bytes()` for an integer of `k` octets. -/
def leBytes : Nat → Nat → Bytes
  | 0, _ => []
  | k + 1, n => UInt8.ofNat n :: leBytes k (n / 256)

/-- The value of octets in little-endian order. -/
def leNat : Bytes → Nat
  | [] => 0
  | b :: bs => b.toNat + 256 * leNat bs

@[simp] theorem leBytes_length (k n : Nat) : (leBytes k n).length = k := by
  induction k generalizing n with
  | zero => rfl
  | succ k ih => simp [leBytes, ih]

theorem leNat_leBytes (k n : Nat) (h : n < 256 ^ k) : leNat (leBytes k n) = n := by
  induction k generalizing n with
  | zero =>
    simp only [pow_zero, lt_one_iff] at h
    simp [leBytes, leNat, h]
  | succ k ih =>
    have small : n / 256 < 256 ^ k := by
      rw [div_lt_iff_lt_mul (by decide)]
      exact h
    have digit : (UInt8.ofNat n).toNat = n % 256 := by simp
    rw [leBytes, leNat, ih _ small]
    omega

/-- The octets before the first one that a test refuses. -/
theorem takeWhile_append_stop {p : UInt8 → Bool} {stop : UInt8} (no : p stop = false) (l rest : Bytes) :
    (l ++ stop :: rest).takeWhile p = l.takeWhile p := by
  rw [takeWhile_append, takeWhile_cons_of_neg (by simp [no]), append_nil]
  split
  next whole =>
    have front : l.takeWhile p <+: l := takeWhile_prefix p
    exact (front.eq_of_length whole).symm
  · rfl

theorem eq_of_take {l front : Bytes} {n : Nat} (same : l.take n = front) (short : front.length < n) : l = front := by
  rw [← same, length_take] at short
  rw [← same, take_of_length_le (by omega)]

/-! ## Checked computations -/

/-- A computation that gives this value in range, and nothing elsewhere. -/
def Checks {α : Type} (o : Option α) (a : α) (inRange : Prop) : Prop := (inRange → o = some a) ∧ (¬ inRange → o = none)

namespace Checks

variable {α β : Type} {o : Option α} {a : α} {p q : Prop}

theorem sure (a : α) (h : p) : Checks (some a) a p := ⟨fun _ => rfl, fun out => absurd h out⟩

theorem ite [Decidable p] : Checks (if p then some a else none) a p := ⟨fun h => if_pos h, fun out => if_neg out⟩

theorem congr (h : Checks o a p) (iff : p ↔ q) : Checks o a q := by
  rwa [← iff]

theorem bind {f : α → Option β} {b : β} (h : Checks o a p) (next : Checks (f a) b q) : Checks (o.bind f) b (p ∧ q) := by
  by_cases inRange : p
  · rw [h.1 inRange]
    exact next.congr (and_iff_right inRange).symm
  · rw [h.2 inRange]
    exact ⟨fun both => absurd both.1 inRange, fun _ => rfl⟩

theorem map (f : α → β) (h : Checks o a p) : Checks (o.map f) (f a) p :=
  ⟨fun inRange => by rw [h.1 inRange]; rfl, fun out => by rw [h.2 out]; rfl⟩

theorem some_iff (h : Checks o a p) : o = some a ↔ p :=
  ⟨fun found => Classical.not_not.mp fun out => Option.some_ne_none a (found.symm.trans (h.2 out)), h.1⟩

end Checks

theorem ite_eq_some {α : Type} {a b : α} {o : Option α} {c : Prop} [Decidable c] (rest : ¬ c → o = some b) :
    (if c then some a else o) = some (if c then a else b) := by
  split
  · rfl
  next other => exact rest other

end BarryOS.Lib
