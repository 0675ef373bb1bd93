import Mathlib.Algebra.Order.BigOperators.Group.List
import Mathlib.Algebra.Order.Ring.Nat
import BarryOS.Lib.Str
import BarryOS.Net.Dns

/-!
# Queries

The question of a query is the name that was asked for, label by label, and `skip_name` finds its
end. A name of up to 63 octets always fits.
-/

namespace BarryOS.Net.Dns

open Lib List

/-- The labels of a name, as they are asked for. -/
def labelsOf (name : Bytes) : List Bytes := ((name.map lower).splitOn 0x2E).filter fun label => !label.isEmpty

/-- Labels on the wire, each behind its length. -/
def encodeName (labels : List Bytes) : Bytes := labels.flatMap fun label => UInt8.ofNat label.length :: label

/-- The name and type of a query: the labels, the root, and an address in the Internet class. -/
def questionFor (name : Bytes) : Bytes := encodeName (labelsOf name) ++ 0 :: (be16 1 ++ be16 1)

/-! ## Lower case -/

variable {b : UInt8}

theorem lower_high (high : ¬ b < 0x80) : lower b = b := by
  unfold lower
  rw [if_neg]
  simp only [Bool.and_eq_true, decide_eq_true_eq, UInt8.le_iff_toNat_le]
  rw [UInt8.lt_iff_toNat_lt] at high
  have v : UInt8.toNat 0x80 = 128 := rfl
  have z : UInt8.toNat 0x5A = 90 := rfl
  omega

theorem lower_ascii (ascii : b < 0x80) : lower b < 0x80 := by
  unfold lower
  split
  next capital =>
    simp only [Bool.and_eq_true, decide_eq_true_eq, UInt8.le_iff_toNat_le] at capital
    rw [UInt8.lt_iff_toNat_lt, UInt8.toNat_add]
    have v : UInt8.toNat 0x80 = 128 := rfl
    have z : UInt8.toNat 0x5A = 90 := rfl
    have d : UInt8.toNat 0x20 = 32 := rfl
    omega
  · exact ascii

theorem lower_cont (cont : isCont b = true) : lower b = b := by
  apply lower_high
  intro ascii
  rw [isCont_ascii ascii] at cont
  cases cont

theorem validUtf8_lower {l : Bytes} (valid : validUtf8 l = true) : validUtf8 (l.map lower) = true := by
  fun_induction validUtf8 l with
  | case1 => exact validUtf8_nil
  | case2 x l small ih =>
    rw [validUtf8.eq_def]
    simp [lower_ascii small, ih valid]
  | case3 x big => cases valid
  | case4 x big y l two ih =>
    rw [Bool.and_eq_true] at valid
    rw [map_cons, map_cons, lower_high big, lower_cont valid.1, validUtf8.eq_def]
    simp [big, two, valid.1, ih valid.2]
  | case5 x big y two => cases valid
  | case6 x big y two z l three ih =>
    simp only [Bool.and_eq_true] at valid
    have high : ¬ y < 0x80 := fun ascii => by
      rw [second3_ascii x ascii] at valid
      exact absurd valid.1.1 (by decide)
    rw [map_cons, map_cons, map_cons, lower_high big, lower_high high, lower_cont valid.1.2, validUtf8.eq_def]
    simp [big, two, three, valid.1, ih valid.2]
  | case7 x big y two z three => cases valid
  | case8 x big y two z three w l ih =>
    simp only [Bool.and_eq_true] at valid
    have high : ¬ y < 0x80 := fun ascii => by
      rw [second4_ascii x ascii] at valid
      exact absurd valid.1.1.1.2 (by decide)
    rw [map_cons, map_cons, map_cons, map_cons, lower_high big, lower_high high,
      lower_cont valid.1.1.2, lower_cont valid.1.2, validUtf8.eq_def]
    simp [big, two, three, valid.1, ih valid.2]

/-! ## Encoding -/

theorem encodeLabels_eq (labels : List Bytes) (done : Bytes)
    (room : 12 + done.length + ((labels.map fun label => 1 + label.length)).sum < 256) :
    encodeLabels labels done = some (done ++ encodeName (labels.filter fun label => !label.isEmpty)) := by
  induction labels generalizing done with
  | nil => simp [encodeLabels, encodeName]
  | cons label rest ih =>
    rw [map_cons, sum_cons] at room
    unfold encodeLabels
    by_cases empty : label.isEmpty = true
    · rw [ih done (by omega)]
      simp [empty]
    rw [if_neg empty, if_neg (by omega), ih]
    · simp [empty, encodeName]
    · simp only [length_append, length_cons]
      omega

theorem length_le_of_mem_splitOn {c : UInt8} {l piece : Bytes} (member : piece ∈ l.splitOn c) :
    piece.length ≤ l.length := by
  have part := le_sum_of_mem (mem_map_of_mem (f := fun piece : Bytes => 1 + piece.length) member)
  rw [length_splitOn] at part
  omega

/-- The labels of a name that is short enough can be told from pointers. -/
theorem labelsOf_length {name label : Bytes} (short : name.length ≤ 63) (member : label ∈ labelsOf name) :
    0 < label.length ∧ label.length < 64 := by
  obtain ⟨piece, nonempty⟩ := mem_filter.mp member
  have bound := length_le_of_mem_splitOn piece
  rw [length_map] at bound
  have some' : label ≠ [] := by simpa using nonempty
  exact ⟨length_pos_iff.mpr some', by omega⟩

theorem label_octet {n : Nat} (some' : 0 < n) (short : n < 64) :
    UInt8.ofNat n &&& 0xC0 ≠ 0xC0 ∧ UInt8.ofNat n ≠ 0 ∧ (UInt8.ofNat n).toNat = n := by
  have all : ∀ n < 64, 0 < n → UInt8.ofNat n &&& 0xC0 ≠ 0xC0 ∧ UInt8.ofNat n ≠ 0 := by decide
  obtain ⟨label, nonzero⟩ := all n short some'
  refine ⟨label, nonzero, ?_⟩
  rw [UInt8.toNat_ofNat']
  omega

theorem octet_of_drop {msg rest : Bytes} {i : Nat} (here : msg.drop i = b :: rest) :
    i < msg.length ∧ octet msg i = b := by
  have size := congrArg length here
  rw [length_drop, length_cons] at size
  refine ⟨by omega, ?_⟩
  rw [← Nat.add_zero i, ← octet_drop, here]
  rfl

/-- `skip_name` goes from label to label, to the octet behind the root. -/
theorem skipName_encodeName {msg rest : Bytes} {labels : List Bytes}
    (sized : ∀ label ∈ labels, 0 < label.length ∧ label.length < 64) {i fuel : Nat}
    (here : msg.drop i = encodeName labels ++ 0 :: rest) (enough : labels.length < fuel) :
    skipName msg fuel i = some (i + (encodeName labels).length + 1) := by
  induction labels generalizing i fuel with
  | nil =>
    obtain ⟨fuel, rfl⟩ : ∃ n, fuel = n + 1 := ⟨fuel - 1, by simp at enough; omega⟩
    obtain ⟨inside, root⟩ := octet_of_drop (b := 0) here
    rw [skipName, if_neg (by omega)]
    rw [root, if_neg (by decide)]
    rfl
  | cons label labels ih =>
    rw [length_cons] at enough
    obtain ⟨fuel, rfl⟩ : ∃ n, fuel = n + 1 := ⟨fuel - 1, by omega⟩
    obtain ⟨some', short⟩ := sized label mem_cons_self
    obtain ⟨isLabel, nonzero, size⟩ := label_octet some' short
    have grow : (encodeName (label :: labels)).length = 1 + label.length + (encodeName labels).length := by
      simp only [encodeName, flatMap_cons, length_append, length_cons]
      omega
    have unfolded : encodeName (label :: labels) ++ 0 :: rest =
        UInt8.ofNat label.length :: (label ++ (encodeName labels ++ 0 :: rest)) := by
      simp [encodeName]
    rw [unfolded] at here
    obtain ⟨inside, first⟩ := octet_of_drop here
    have next : msg.drop (i + 1 + label.length) = encodeName labels ++ 0 :: rest := by
      rw [Nat.add_assoc, ← drop_drop, here, Nat.add_comm 1, drop_succ_cons, drop_left]
    rw [skipName, if_neg (by omega)]
    rw [first, if_neg isLabel, if_neg nonzero, size,
      ih (fun other member => sized other (mem_cons_of_mem _ member)) next (by omega)]
    congr 1
    omega

/-! ## The query that goes out -/

/-- The octets of the header. -/
def queryHead (id : UInt16) : Bytes := be16 id ++ be16 0x0100 ++ be16 1 ++ zeros 6

theorem queryBytes_eq (id : UInt16) (name : Bytes) :
    queryBytes id (encodeName (labelsOf name)) = queryHead id ++ questionFor name := by
  simp only [queryBytes, queryHead, questionFor, append_assoc, cons_append, nil_append]

theorem queryBytes_drop (id : UInt16) (name : Bytes) :
    (queryBytes id (encodeName (labelsOf name))).drop 12 = questionFor name := by
  rw [queryBytes_eq]
  exact drop_left' rfl

/-- What an accepted name sends: one query with its labels, in order. -/
theorem start_sends {r : Resolver} {now : UInt64} {name : Str} (accepted : (r.start now name.bytes).1 = true) :
    name.bytes.length ≤ 63 ∧ (r.start now name.bytes).2.wire =
      r.wire ++ [queryBytes (r.start now name.bytes).2.queryId (encodeName (labelsOf name.bytes))] := by
  unfold Resolver.start at accepted ⊢
  split at accepted
  · cases accepted
  split at accepted
  · cases accepted
  rename_i named there
  rw [if_neg named, if_neg there]
  have short : name.bytes.length ≤ 63 := by
    simp only [Bool.or_eq_true, decide_eq_true_eq] at named
    omega
  refine ⟨short, ?_⟩
  have pieces := length_splitOn 0x2E (name.bytes.map lower)
  have encoded := encodeLabels_eq ((name.bytes.map lower).splitOn 0x2E) [] (by
    rw [pieces, length_map, length_nil]
    omega)
  unfold Resolver.sendQuery
  dsimp only
  rw [if_pos (validUtf8_lower name.utf8), encoded]
  rfl

end BarryOS.Net.Dns
