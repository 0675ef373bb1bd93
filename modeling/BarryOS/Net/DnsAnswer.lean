import BarryOS.Net.DnsQuery

/-!
# Reading an answer

`handleChecked` is `handle` with every index and slice of the source checked; it gives nothing
where one of them would panic, or where `skip_name` did not end. Neither happens.

`Name` is the format of names as `skip_name` documents it: labels with their lengths in front, up to the
root or to a pointer of two octets. Where a pointer goes does not matter, since no name is put together.
-/

namespace BarryOS.Net.Dns

open Lib Option

/-! ## Checked reads -/

def be16? (msg : Bytes) (i : Nat) : Option UInt16 :=
  msg[i]?.bind fun a => msg[i + 1]?.map fun b => (a.toUInt16 <<< 8) ||| b.toUInt16

def skipNameChecked (msg : Bytes) : Nat → Nat → Option (Option Nat)
  | 0, _ => none
  | fuel + 1, i =>
    if i ≥ msg.length then some none
    else
      msg[i]?.bind fun len =>
        if len &&& 0xC0 = 0xC0 then some (if i + 1 < msg.length then some (i + 2) else none)
        else if len = 0 then some (some (i + 1))
        else skipNameChecked msg fuel (i + 1 + len.toNat)

def skipQuestionsChecked (msg : Bytes) : Nat → Nat → Option (Option Nat)
  | 0, i => some (some i)
  | n + 1, i =>
    (skipNameChecked msg (msg.length + 1) i).bind fun
      | none => some none
      | some next => skipQuestionsChecked msg n (next + 4)

def findAddressChecked (msg : Bytes) : Nat → Nat → Option Found
  | 0, _ => some .none
  | n + 1, i =>
    (skipNameChecked msg (msg.length + 1) i).bind fun
      | none => some .broken
      | some i =>
        if i + 10 > msg.length then some .broken
        else
          (be16? msg i).bind fun rtype => (be16? msg (i + 8)).bind fun rdlen =>
            if i + 10 + rdlen.toNat > msg.length then some .broken
            else if rtype = 1 && rdlen.toNat = 4 then
              (slice? msg (i + 10) (i + 14)).map fun data => .address (Ipv4.ipAt data 0)
            else findAddressChecked msg n (i + 10 + rdlen.toNat)

def Resolver.handleChecked (msg : Bytes) (r : Resolver) : Option Resolver :=
  if msg.length < 12 || r.state ≠ .waiting then some r
  else
    (be16? msg 0).bind fun id =>
      if id ≠ r.queryId then some r
      else
        msg[2]?.bind fun flags =>
          if flags &&& 0x80 = 0 then some r
          else
            msg[3]?.bind fun code =>
              if code &&& 0x0F ≠ 0 then some { r with state := .failed }
              else
                (be16? msg 4).bind fun qd => (be16? msg 6).bind fun an =>
                  (skipQuestionsChecked msg qd.toNat 12).bind fun
                    | none => some r
                    | some i =>
                      (findAddressChecked msg an.toNat i).map fun
                        | .broken => r
                        | .address ip => { r with result := ip.toU32, state := .answered }
                        | .none => { r with state := .failed }

section Checked

variable {msg : Bytes}

theorem be16?_eq {i : Nat} (inside : i + 1 < msg.length) : be16? msg i = some (be16At msg i) := by
  rw [be16?, getElem?_octet (by omega), getElem?_octet inside]
  rfl

theorem skipNameChecked_eq {fuel i : Nat} (enough : msg.length < fuel + i) (some' : 0 < fuel) :
    skipNameChecked msg fuel i = some (skipName msg fuel i) := by
  induction fuel generalizing i with
  | zero => omega
  | succ fuel ih =>
    refine ite_eq_some fun inside => ?_
    rw [getElem?_octet (by omega)]
    exact ite_eq_some fun _ => ite_eq_some fun _ => ih (by omega) (by omega)

theorem skipName_fuel (i : Nat) : skipNameChecked msg (msg.length + 1) i = some (skipName msg (msg.length + 1) i) :=
  skipNameChecked_eq (by omega) (by omega)

theorem skipQuestionsChecked_eq (n i : Nat) : skipQuestionsChecked msg n i = some (skipQuestions msg n i) := by
  induction n generalizing i with
  | zero => rfl
  | succ n ih =>
    rw [skipQuestionsChecked, skipQuestions, skipName_fuel]
    cases skipName msg (msg.length + 1) i with
    | none => rfl
    | some next => exact ih (next + 4)

theorem findAddressChecked_eq (n i : Nat) : findAddressChecked msg n i = some (findAddress msg n i) := by
  induction n generalizing i with
  | zero => rfl
  | succ n ih =>
    rw [findAddressChecked, findAddress, skipName_fuel]
    cases skipName msg (msg.length + 1) i with
    | none => rfl
    | some k =>
      refine ite_eq_some fun long => ?_
      rw [be16?_eq (by omega), be16?_eq (by omega)]
      refine ite_eq_some fun whole => ?_
      by_cases address : (be16At msg k = 1 && (be16At msg (k + 8)).toNat = 4) = true
      · have four := address
        simp only [Bool.and_eq_true, decide_eq_true_eq] at four
        rw [if_pos address, if_pos address, slice?, if_pos ⟨by omega, by omega⟩]
        simp [Ipv4.ipAt, octet_slice]
      rw [if_neg address, if_neg address]
      exact ih _

/-- `handle` ends, and every index and slice on the way is in range. -/
theorem handleChecked_eq (r : Resolver) (msg : Bytes) : r.handleChecked msg = some (r.handle msg) := by
  refine ite_eq_some fun heard => ?_
  have long : 12 ≤ msg.length := by
    simp only [Bool.or_eq_true, decide_eq_true_eq] at heard
    omega
  rw [be16?_eq (by omega)]
  refine ite_eq_some fun mine => ?_
  rw [getElem?_octet (by omega)]
  refine ite_eq_some fun reply => ?_
  rw [getElem?_octet (by omega)]
  refine ite_eq_some fun fine => ?_
  rw [be16?_eq (by omega), be16?_eq (by omega), bind_some, bind_some, skipQuestionsChecked_eq, bind_some, answersAt]
  cases skipQuestions msg (be16At msg 4).toNat 12 with
  | none => rfl
  | some i =>
    dsimp only
    rw [findAddressChecked_eq]
    cases findAddress msg (be16At msg 6).toNat i <;> rfl

end Checked

/-! ## The format -/

/-- A name from octet `i` to octet `j`. -/
inductive Name (msg : Bytes) : Nat → Nat → Prop
  | root {i : Nat} (here : msg[i]? = some 0) : Name msg i (i + 1)
  | label {i j : Nat} {len : UInt8} (here : msg[i]? = some len) (nonzero : len ≠ 0) (plain : len.toNat < 192)
      (rest : Name msg (i + 1 + len.toNat) j) : Name msg i j
  | pointer {i : Nat} {high low : UInt8} (here : msg[i]? = some high) (next : msg[i + 1]? = some low)
      (mark : 192 ≤ high.toNat) : Name msg i (i + 2)

section Sections

variable (msg : Bytes)

/-- So many questions, from octet `i` to octet `j`. -/
def Questions : Nat → Nat → Nat → Prop
  | 0, i, j => i = j
  | n + 1, i, j => ∃ k, Name msg i k ∧ k + 4 ≤ msg.length ∧ Questions n (k + 4) j

/-- Records from octet `i` on, up to the first one of type A with four octets of data. -/
def FirstAddress : Nat → Nat → Ip → Prop
  | 0, _, _ => False
  | n + 1, i, ip => ∃ k, Name msg i k ∧ k + 10 + (be16At msg (k + 8)).toNat ≤ msg.length ∧
      if be16At msg k = 1 ∧ (be16At msg (k + 8)).toNat = 4 then ip = Ipv4.ipAt msg (k + 10)
      else FirstAddress n (k + 10 + (be16At msg (k + 8)).toNat) ip

/-- A message whose answers can be read up to an address. -/
def Gives (ip : Ip) : Prop :=
  12 ≤ msg.length ∧ ∃ i, Questions msg (be16At msg 4).toNat 12 i ∧ FirstAddress msg (be16At msg 6).toNat i ip

end Sections

/-! ## What the walk finds -/

section Walk

variable {msg : Bytes}

theorem pointer_iff (len : UInt8) : len &&& 0xC0 = 0xC0 ↔ 192 ≤ len.toNat := by
  have all : ∀ n < 256, UInt8.ofNat n &&& 0xC0 = 0xC0 ↔ 192 ≤ n := by decide +kernel
  have this := all len.toNat len.toNat_lt
  rwa [UInt8.ofNat_toNat] at this

theorem skipName_name {fuel i j : Nat} (found : skipName msg fuel i = some j) : Name msg i j := by
  induction fuel generalizing i with
  | zero => cases found
  | succ fuel ih =>
    unfold skipName at found
    dsimp only at found
    split at found
    · cases found
    have here : msg[i]? = some (octet msg i) := getElem?_octet (by omega)
    split at found
    next mark =>
      split at found
      next inside' =>
        cases found
        exact .pointer here (getElem?_octet inside') ((pointer_iff _).mp mark)
      · cases found
    next unmarked =>
      rw [pointer_iff] at unmarked
      split at found
      next root =>
        cases found
        exact .root (here.trans (congrArg some root))
      next nonzero => exact .label here nonzero (by omega) (ih found)

variable {i : Nat}

theorem octet_of_getElem? {b : UInt8} (here : msg[i]? = some b) : i < msg.length ∧ octet msg i = b := by
  obtain ⟨inside, -⟩ := List.getElem?_eq_some_iff.mp here
  refine ⟨inside, ?_⟩
  rw [getElem?_octet inside, Option.some.injEq] at here
  exact here

variable {j : Nat}

theorem skipName_of_name (h : Name msg i j) {fuel : Nat} (enough : msg.length < fuel + i) :
    skipName msg fuel i = some j := by
  induction h generalizing fuel with
  | root here =>
    obtain ⟨inside, octet⟩ := octet_of_getElem? here
    obtain ⟨fuel, rfl⟩ : ∃ n, fuel = n + 1 := ⟨fuel - 1, by omega⟩
    rw [skipName, if_neg (by omega)]
    rw [octet, if_neg (by decide), if_pos rfl]
  | label here nonzero short _ ih =>
    obtain ⟨inside, octet⟩ := octet_of_getElem? here
    obtain ⟨fuel, rfl⟩ : ∃ n, fuel = n + 1 := ⟨fuel - 1, by omega⟩
    rw [skipName, if_neg (by omega)]
    rw [octet, if_neg (by rw [pointer_iff]; omega), if_neg nonzero]
    exact ih (by omega)
  | pointer here next mark =>
    obtain ⟨inside, octet⟩ := octet_of_getElem? here
    obtain ⟨inside', -⟩ := octet_of_getElem? next
    obtain ⟨fuel, rfl⟩ : ∃ n, fuel = n + 1 := ⟨fuel - 1, by omega⟩
    rw [skipName, if_neg (by omega)]
    rw [octet, if_pos ((pointer_iff _).mpr mark), if_pos inside']

theorem skipName_iff (i j : Nat) : skipName msg (msg.length + 1) i = some j ↔ Name msg i j :=
  ⟨skipName_name, fun h => skipName_of_name h (by omega)⟩

theorem findAddress_iff (n i : Nat) (ip : Ip) :
    findAddress msg n i = .address ip ↔ FirstAddress msg n i ip := by
  induction n generalizing i with
  | zero => exact iff_of_false nofun id
  | succ n ih =>
    rw [findAddress, FirstAddress]
    cases name : skipName msg (msg.length + 1) i with
    | none =>
      refine iff_of_false nofun ?_
      rintro ⟨k, named, -⟩
      rw [(skipName_iff i k).mpr named] at name
      cases name
    | some k =>
      have only : ∀ k', Name msg i k' ↔ k' = k := by
        intro k'
        rw [← skipName_iff, name, Option.some.injEq, eq_comm]
      simp only [only, exists_eq_left]
      by_cases short : k + 10 > msg.length
      · rw [if_pos short]
        exact iff_of_false nofun fun room => by omega
      rw [if_neg short]
      by_cases cut : k + 10 + (be16At msg (k + 8)).toNat > msg.length
      · rw [if_pos cut]
        exact iff_of_false nofun fun room => by omega
      rw [if_neg cut]
      by_cases address : be16At msg k = 1 ∧ (be16At msg (k + 8)).toNat = 4
      · rw [if_pos (by simpa using address), if_pos address, Found.address.injEq]
        exact ⟨fun same => ⟨by omega, same.symm⟩, fun same => same.2.symm⟩
      rw [if_neg (by simpa using address), if_neg address, ih]
      exact ⟨fun rest => ⟨by omega, rest⟩, fun rest => rest.2⟩

theorem Name.inside (h : Name msg i j) : i < msg.length := by
  cases h with
  | root here => exact (octet_of_getElem? here).1
  | label here _ _ _ => exact (octet_of_getElem? here).1
  | pointer here _ _ => exact (octet_of_getElem? here).1

theorem FirstAddress.inside {n i : Nat} {ip : Ip} (h : FirstAddress msg n i ip) : i < msg.length := by
  cases n with
  | zero => exact h.elim
  | succ n =>
    obtain ⟨k, name, -⟩ := h
    exact name.inside

theorem Name.lt (h : Name msg i j) : i < j := by
  induction h with
  | root _ => omega
  | label _ _ _ _ ih => omega
  | pointer _ _ _ => omega

theorem skipQuestions_le {n i j : Nat} (found : skipQuestions msg n i = some j) : i ≤ j := by
  induction n generalizing i with
  | zero =>
    cases found
    exact le_rfl
  | succ n ih =>
    rw [skipQuestions] at found
    split at found
    · cases found
    rename_i k name
    have ahead := ((skipName_iff i k).mp name).lt
    have later := ih found
    omega

/-- The questions end where the answers start, which is in the message. -/
theorem skipQuestions_iff (n i : Nat) (inside : j < msg.length) :
    skipQuestions msg n i = some j ↔ Questions msg n i j := by
  induction n generalizing i with
  | zero => exact some_inj
  | succ n ih =>
    rw [skipQuestions]
    constructor
    · intro found
      split at found
      · cases found
      rename_i k name
      have later := skipQuestions_le found
      exact ⟨k, (skipName_iff i k).mp name, by omega, (ih (k + 4)).mp found⟩
    · rintro ⟨k, name, -, rest⟩
      rw [(skipName_iff i k).mpr name]
      exact (ih (k + 4)).mpr rest

theorem answersAt_iff (long : 12 ≤ msg.length) (ip : Ip) : answersAt msg = .address ip ↔ Gives msg ip := by
  unfold answersAt Gives
  constructor
  · intro found
    split at found
    · cases found
    rename_i i questions
    have address := (findAddress_iff _ i ip).mp found
    exact ⟨long, i, (skipQuestions_iff _ 12 address.inside).mp questions, address⟩
  · rintro ⟨-, i, questions, address⟩
    rw [(skipQuestions_iff _ 12 address.inside).mpr questions]
    exact (findAddress_iff _ i ip).mpr address

end Walk

/-! ## Both directions -/

namespace Resolver

/-- A response without an error to the query that is waited for. -/
structure Heard (r : Resolver) (msg : Bytes) : Prop where
  waiting : r.state = .waiting
  ours : be16At msg 0 = r.queryId
  response : octet msg 2 &&& 0x80 ≠ 0
  fine : octet msg 3 &&& 0x0F = 0

/-- The message makes this the answer. -/
def Records (r : Resolver) (msg : Bytes) (ip : Ip) : Prop :=
  (r.handle msg).state = .answered ∧ (r.handle msg).result = ip.toU32

theorem Heard.records {r : Resolver} {msg : Bytes} (h : r.Heard msg) (ip : Ip) :
    r.Records msg ip ↔ Gives msg ip := by
  unfold Records handle
  by_cases long : 12 ≤ msg.length
  · rw [if_neg (by simp [h.waiting, long]), if_neg (fun other => other h.ours), if_neg h.response,
      if_neg (fun failed => failed h.fine), ← answersAt_iff long]
    cases answersAt msg with
    | broken => simp [h.waiting]
    | address ip' =>
      simp only [Found.address.injEq, true_and]
      exact ⟨Ip.toU32_injective, congrArg Ip.toU32⟩
    | none => simp
  · rw [if_pos (by simp only [Bool.or_eq_true, decide_eq_true_eq]; omega)]
    refine iff_of_false (fun recorded => ?_) fun gives => long gives.1
    rw [h.waiting] at recorded
    cases recorded.1

end Resolver

/-- Every name that is accepted goes out label by label, and `skip_name` finds the type behind it. Every
message is read to an end and in range. An answer is recorded exactly if the message can be read up to a
first A record with four octets, and it is the address in that record. -/
theorem messages_read (r : Resolver) : (∀ (now : UInt64) (name : Str), (r.start now name.bytes).1 = true →
      ∃ query k, (r.start now name.bytes).2.wire = r.wire ++ [query] ∧
        query.drop 12 = encodeName (labelsOf name.bytes) ++ 0 :: (be16 1 ++ be16 1) ∧
        skipNameChecked query (query.length + 1) 12 = some (some k) ∧ query.drop k = be16 1 ++ be16 1) ∧
    (∀ msg : Bytes, r.handleChecked msg = some (r.handle msg)) ∧
    ∀ msg : Bytes, r.Heard msg → ∀ ip, r.Records msg ip ↔ Gives msg ip := by
  refine ⟨fun now name accepted => ?_, handleChecked_eq r, fun msg heard => heard.records⟩
  obtain ⟨short, sent⟩ := start_sends accepted
  have question := queryBytes_drop (r.start now name.bytes).2.queryId name.bytes
  obtain ⟨query, same⟩ : ∃ query, query =
      queryBytes (r.start now name.bytes).2.queryId (encodeName (labelsOf name.bytes)) := ⟨_, rfl⟩
  rw [← same] at sent question
  refine ⟨query, 12 + (encodeName (labelsOf name.bytes)).length + 1, sent, question, ?_, ?_⟩
  · have skipped := skipName_encodeName (fun _ => labelsOf_length short) question (Nat.lt_succ_self _)
    rw [skipName_fuel, (skipName_iff _ _).mpr (skipName_name skipped)]
  · rw [Nat.add_assoc, ← List.drop_drop, question, ← List.drop_drop, questionFor, List.drop_left]
    rfl

end BarryOS.Net.Dns
