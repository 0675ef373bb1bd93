import BarryOS.Lib.Bytes
import Mathlib.Algebra.BigOperators.Group.List.Basic

/-!
# One's complement sums

The sum of 16-bit words with end-around carry, and the rule of the Internet checksum: octets verify when
that sum over all their words, the checksum among them, is all ones (`Verifies`). The end-around carry is
arithmetic modulo 65535 with 65535 itself for the zero of a sum that is not empty (`canon`), so octets
verify exactly if their plain sum is a positive multiple of 65535 (`verifies_iff`).
-/

namespace BarryOS.Lib

open List

/-- The 16-bit words of octets, an odd last one padded on the right. -/
def words : Bytes → List Nat
  | a :: b :: rest => (a.toNat * 256 + b.toNat) :: words rest
  | [a] => [a.toNat * 256]
  | [] => []

/-- Addition with end-around carry. -/
def onesAdd (a b : Nat) : Nat := if a + b < 65536 then a + b else a + b - 65535

def onesSum (ws : List Nat) : Nat := ws.foldl onesAdd 0

/-- The sum of all words is all ones. -/
def Verifies (data : Bytes) : Prop := onesSum (words data) = 0xFFFF

/-- What a plain sum is with end-around carry. -/
def canon (n : Nat) : Nat := if n = 0 then 0 else (n - 1) % 65535 + 1

theorem canon_of_lt {n : Nat} (small : n < 65536) : canon n = n := by
  unfold canon
  split
  · omega
  omega

theorem canon_le (n : Nat) : canon n ≤ 65535 := by
  unfold canon
  split <;> omega

/-- The carry comes back in at the other end. -/
theorem canon_carry (n : Nat) : canon (n % 65536 + n / 65536) = canon n := by
  unfold canon
  split
  · rw [if_pos (by omega)]
  rw [if_neg (by omega)]
  omega

theorem onesAdd_canon (n w : Nat) (word : w < 65536) : onesAdd (canon n) w = canon (n + w) := by
  unfold onesAdd canon
  split <;> split <;> split <;> omega

theorem words_lt (data : Bytes) : ∀ w ∈ words data, w < 65536 := by
  fun_induction words data with
  | case1 a b rest ih =>
    have ha := a.toNat_lt
    have hb := b.toNat_lt
    exact forall_mem_cons.mpr ⟨by omega, ih⟩
  | case2 a =>
    have ha := a.toNat_lt
    intro w inside
    rw [mem_singleton.mp inside]
    omega
  | case3 => exact fun w inside => absurd inside not_mem_nil

theorem onesSum_eq (ws : List Nat) (small : ∀ w ∈ ws, w < 65536) : onesSum ws = canon ws.sum := by
  have general : ∀ n, ws.foldl onesAdd (canon n) = canon (n + ws.sum) := by
    induction ws with
    | nil => exact fun n => rfl
    | cons w ws ih =>
      obtain ⟨first, more⟩ := forall_mem_cons.mp small
      intro n
      rw [foldl_cons, onesAdd_canon n w first, ih more, sum_cons, Nat.add_assoc]
  have from0 := general 0
  rw [Nat.zero_add] at from0
  exact from0

theorem verifies_iff (data : Bytes) : Verifies data ↔ 0 < (words data).sum ∧ (words data).sum % 65535 = 0 := by
  unfold Verifies
  rw [onesSum_eq _ (words_lt data)]
  unfold canon
  split <;> omega

theorem words_append {front : Bytes} (even : front.length % 2 = 0) (rest : Bytes) :
    words (front ++ rest) = words front ++ words rest := by
  fun_induction words front with
  | case1 a b more ih =>
    rw [length_cons, length_cons] at even
    rw [cons_append, cons_append, words, ih (by omega), cons_append]
  | case2 a => cases even
  | case3 => rfl

theorem words_be16 (v : UInt16) : (words (be16 v)).sum = v.toNat := by
  have range := v.toNat_lt
  simp [be16, words]
  omega

/-- The complement of the sum of the rest makes octets verify, wherever it stands; and so does all ones,
when the complement is zero. -/
theorem verifies_complement {front back : Bytes} (even : front.length % 2 = 0) {ck : UInt16}
    (complement : ck.toNat = 65535 - canon ((words front).sum + (words back).sum) ∨
      ck = 0xFFFF ∧ canon ((words front).sum + (words back).sum) = 65535) : Verifies (front ++ be16 ck ++ back) := by
  have sum : (words (front ++ be16 ck ++ back)).sum = (words front).sum + ck.toNat + (words back).sum := by
    rw [append_assoc, words_append even, words_append (by simp [be16]), sum_append, sum_append, words_be16,
      Nat.add_assoc]
  rw [verifies_iff, sum]
  rcases complement with exact' | ⟨ones, all⟩
  · rw [exact']
    unfold canon
    split <;> omega
  rw [ones, show (0xFFFF : UInt16).toNat = 65535 from rfl]
  unfold canon at all
  split at all <;> omega

end BarryOS.Lib
