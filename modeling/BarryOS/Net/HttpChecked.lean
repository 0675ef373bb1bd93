import BarryOS.Net.HttpResponse

/-!
# Reading any octets

`parse_headers` once more, with the index of every read and the range of every number looked at: what
would be out of range gives nothing. No index is. The status is a subtraction for each of its digits and
wraps around below `0`; a length wraps around beyond 64 bits. Where neither happens the two readings are
one (`parseHeadersChecked_iff`).
-/

namespace BarryOS.Net.Http

open Lib List
open Option (bind_some map_some some_ne_none)

/-! ## The reading, checked -/

/-- The loop that looks for the first space from `i` on. -/
def spaceFrom (all : Bytes) : Nat → Nat → Option Nat
  | 0, i => some i
  | fuel + 1, i =>
    if i < all.length then all[i]?.bind fun b => if b ≠ 0x20 then spaceFrom all fuel (i + 1) else some i else some i

/-- `b - b'0'`. -/
def digit? (b : UInt8) : Option Nat := if 0x30 ≤ b then some (b - 0x30).toNat else none

/-- A sum kept in 16 bits. -/
def sum16? (n : Nat) : Option UInt16 := if n < 65536 then some (UInt16.ofNat n) else none

def statusChecked (all : Bytes) : Option (Option UInt16) :=
  (spaceFrom all (all.length + 1) 0).bind fun i =>
    if i + 3 < all.length then
      (all[i + 1]?.bind digit?).bind fun a => (all[i + 2]?.bind digit?).bind fun b =>
        (all[i + 3]?.bind digit?).bind fun c =>
        (sum16? (a * 100 + b * 10 + c)).map some
    else some none

/-- `find_headers_end`, over the indices still to be tried. -/
def findEndChecked (buf : Bytes) : List Nat → Option (Option Nat)
  | [] => some none
  | i :: is =>
    (slice? buf i (i + 4)).bind fun four =>
      if four = [0x0D, 0x0A, 0x0D, 0x0A] then some (some i) else findEndChecked buf is

/-- The comparison of a line with a name, octet by octet. -/
def agrees (text name : Bytes) : List Nat → Option Bool
  | [] => some true
  | i :: is => text[i]?.bind fun a => name[i]?.bind fun b => if lower a ≠ b then some false else agrees text name is

def headerValueChecked (line name : Bytes) : Option (Option Bytes) :=
  if line.length < name.length then some none
  else
    (agrees line name (range name.length)).bind fun same =>
      if same then
        (slice? line name.length line.length).map fun v => some (v.dropWhile fun b => b = 0x20 || b = 0x09)
      else some none

/-- One more digit of a number kept in 64 bits. -/
def digit64 (n : Nat) (b : UInt8) : Option Nat :=
  let next := n * 10 + (b.toNat - 0x30)
  if next < 18446744073709551616 then some next else none

def parseDecChecked (v : Bytes) : Option Nat := (v.takeWhile isDigit).foldlM digit64 0

def lineChecked (h : Headers) (line : Bytes) : Option Headers :=
  (headerValueChecked line lengthName).bind fun
    | some v => (parseDecChecked v).map fun n => { h with declared := UInt32.ofNat n }
    | none =>
      (headerValueChecked line locationName).bind fun
        | some v => (slice? v 0 (min v.length 256)).map fun l => { h with redirect := true, location := l }
        | none => some h

/-- The walk over the lines, by where the next one starts. -/
def walkChecked (all : Bytes) (stop : Nat) : Nat → Nat → Headers → Option Headers
  | 0, _, h => some h
  | fuel + 1, start, h =>
    if start < stop then
      (slice? all start stop).bind fun block =>
        match block.findIdx? (· = 0x0D) with
        | none => some h
        | some k =>
          (slice? all start (start + k)).bind fun line =>
            (lineChecked h line).bind fun h => walkChecked all stop fuel (start + k + 2) h
    else some h

def Client.parseHeadersChecked (all : Bytes) (c : Client) : Option Client :=
  if all.length < 12 then some c
  else if !(ascii "HTTP/").isPrefixOf all then all[0]?.map fun first => if first ≠ 0x48 then c.fail 6 else c
  else
    (statusChecked all).bind fun status =>
      let c := { c with status := status.getD c.status }
      (findEndChecked all (range (all.length - 3))).bind fun
        | none => some c
        | some stop =>
          (walkChecked all stop (stop + 1) 0 ⟨[], c.bodyDeclared, c.redirect, c.location⟩).map fun h =>
            { c with
              headersParsed := true
              bodyOffset := UInt32.ofNat (stop + 4)
              bodyDeclared := h.declared
              redirect := h.redirect
              location := h.location }

/-! ## What is in range -/

/-- A length with up to 64 bits. -/
def LineInRange (line : Bytes) : Prop :=
  ∀ v, headerValue line lengthName = some v → decimal (v.takeWhile isDigit) < 18446744073709551616

/-- A line that the walk over a block reads. -/
inductive Walks : Bytes → Bytes → Prop where
  | here {block : Bytes} {k : Nat} (ends : block.findIdx? (· = 0x0D) = some k) : Walks block (block.take k)
  | later {block line : Bytes} {k : Nat} (ends : block.findIdx? (· = 0x0D) = some k)
    (more : Walks (block.drop (k + 2)) line) :
      Walks block line

/-- What stands for the digits of the status is no octet below them. -/
def StatusInRange (all : Bytes) : Prop :=
  (all.takeWhile (· ≠ 0x20)).length + 3 < all.length → ∀ k, 1 ≤ k → k ≤ 3 →
    0x30 ≤ octet all ((all.takeWhile (· ≠ 0x20)).length + k)

structure InRange (all : Bytes) : Prop where
  status : StatusInRange all
  lengths : ∀ stop, findHeadersEnd all = some stop → ∀ line, Walks (all.take stop) line → LineInRange line

/-! ## Indices -/

variable {all : Bytes}

theorem spaceFrom_eq {fuel i : Nat} (enough : all.length < fuel + i) :
    spaceFrom all fuel i = some (i + ((all.drop i).takeWhile (· ≠ 0x20)).length) := by
  induction fuel generalizing i with
  | zero =>
    rw [drop_of_length_le (by omega)]
    rfl
  | succ fuel ih =>
    unfold spaceFrom
    by_cases inside : i < all.length
    · rw [if_pos inside, drop_eq_getElem_cons inside, getElem?_eq_getElem inside, bind_some]
      by_cases space : all[i] = 0x20
      · rw [if_neg (by simpa using space), takeWhile_cons_of_neg (by simpa using space)]
        rfl
      rw [if_pos space, ih (by omega), takeWhile_cons_of_pos (by simpa using space), length_cons]
      congr 1
      omega
    · rw [if_neg inside, drop_of_length_le (by omega)]
      rfl

theorem findEndChecked_eq {buf : Bytes} {is : List Nat} (inside : ∀ i ∈ is, i + 4 ≤ buf.length) :
    findEndChecked buf is = some (is.find? fun i => slice buf i (i + 4) = [0x0D, 0x0A, 0x0D, 0x0A]) := by
  induction is with
  | nil => rfl
  | cons i is ih =>
    obtain ⟨here, more⟩ := forall_mem_cons.mp inside
    rw [findEndChecked, slice?, if_pos ⟨by omega, here⟩, bind_some]
    split
    next found => simp [found]
    next other => simp [other, ih more]

theorem agrees_eq {line name : Bytes} {is : List Nat} (inside : ∀ i ∈ is, i < line.length ∧ i < name.length) :
    agrees line name is = some (is.all fun i => lower (octet line i) = octet name i) := by
  induction is with
  | nil => rfl
  | cons i is ih =>
    obtain ⟨here, more⟩ := forall_mem_cons.mp inside
    rw [agrees, getElem?_octet here.1, getElem?_octet here.2, bind_some, bind_some, all_cons]
    split
    next other => simp [other]
    rename_i same
    rw [ih more, not_not.mp same]
    simp

theorem agrees_range {text name : Bytes} (long : name.length ≤ text.length) :
    agrees text name (range name.length) = some (decide ((text.take name.length).map lower = name)) := by
  rw [agrees_eq fun i inside => ⟨by have := mem_range.mp inside; omega, mem_range.mp inside⟩]
  congr 1
  rw [Bool.eq_iff_iff, all_eq_true, decide_eq_true_eq]
  have here : ∀ i (inside : i < name.length) (inside' : i < text.length),
      lower (octet text i) = octet name i ↔ lower text[i] = name[i] := by
    intro i inside inside'
    rw [octet_eq_getElem inside, octet_eq_getElem inside']
  constructor
  · intro same
    apply ext_getElem
    · rw [length_map, length_take]
      omega
    · intro i _ inside
      rw [getElem_map, getElem_take]
      exact (here i inside (by omega)).mp (of_decide_eq_true (same i (mem_range.mpr inside)))
  · intro same i inside
    have inside := mem_range.mp inside
    rw [decide_eq_true_eq, here i inside (by omega), getElem_of_eq same.symm inside, getElem_map, getElem_take]

theorem headerValueChecked_eq (line name : Bytes) : headerValueChecked line name = some (headerValue line name) := by
  unfold headerValueChecked headerValue
  split
  · rfl
  rename_i long
  have inside : name.length ≤ line.length ∧ line.length ≤ line.length := ⟨Nat.not_lt.mp long, le_rfl⟩
  rw [agrees_range inside.1, bind_some]
  by_cases same : (line.take name.length).map lower = name
  · rw [if_pos (decide_eq_true same), if_neg (by simpa using same), slice?, if_pos inside, map_some, slice,
      take_of_length_le (by rw [length_drop])]
  · rw [if_neg (by simpa using same), if_pos same]

/-! ## Numbers -/

variable (v : Bytes)

theorem decimal_concat (b : UInt8) : decimal (v ++ [b]) = decimal v * 10 + (b.toNat - 0x30) := by
  unfold decimal
  rw [foldl_append]
  rfl

/-- A number is at least what its first digits are. -/
theorem decimal_append_le (v w : Bytes) : decimal v ≤ decimal (v ++ w) := by
  induction w generalizing v with
  | nil => rw [append_nil]
  | cons b w ih =>
    have next := ih (v ++ [b])
    rw [decimal_concat, append_assoc, singleton_append] at next
    omega

theorem foldlM_digit64 (v w : Bytes) (so : decimal v < 18446744073709551616) : w.foldlM digit64 (decimal v) =
      if decimal (v ++ w) < 18446744073709551616 then some (decimal (v ++ w)) else none := by
  induction w generalizing v with
  | nil =>
    rw [append_nil, if_pos so]
    rfl
  | cons b w ih =>
    have longer := decimal_append_le (v ++ [b]) w
    rw [append_assoc, singleton_append] at longer
    rw [foldlM_cons, digit64, ← decimal_concat]
    by_cases fits : decimal (v ++ [b]) < 18446744073709551616
    · rw [if_pos fits]
      have rest := ih (v ++ [b]) fits
      rw [append_assoc] at rest
      exact rest
    rw [if_neg fits, if_neg (by omega)]
    rfl

theorem parseDecChecked_eq : parseDecChecked v =
    if decimal (v.takeWhile isDigit) < 18446744073709551616 then some (decimal (v.takeWhile isDigit)) else none :=
  foldlM_digit64 [] (v.takeWhile isDigit) (by decide)

variable {h : Headers}

theorem lineChecked_checks (line : Bytes) : Checks (lineChecked h line) (h.line line) (LineInRange line) := by
  unfold lineChecked Headers.line LineInRange
  rw [headerValueChecked_eq, headerValueChecked_eq, bind_some, bind_some,
    show ascii "content-length:" = lengthName from rfl, show ascii "location:" = locationName from rfl]
  cases headerValue line lengthName with
  | some v =>
    dsimp only
    rw [parseDecChecked_eq, parseDec_eq]
    exact (Checks.ite.map _).congr ⟨fun fits w same => Option.some.inj same ▸ fits, fun all => all v rfl⟩
  | none =>
    cases headerValue line locationName with
    | some v =>
      dsimp only
      rw [slice?, if_pos ⟨Nat.zero_le _, Nat.min_le_left _ _⟩, slice, drop_zero, Nat.sub_zero, Nat.min_comm,
        ← take_eq_take_min]
      exact .sure _ fun v none => absurd none.symm (some_ne_none v)
    | none => exact .sure _ fun v none => absurd none.symm (some_ne_none v)

/-! ## The walk -/

theorem walk_done (none' : h.rest.findIdx? (· = 0x0D) = none) : h.walk = h := by
  refine whileSome_done ?_
  unfold headerStep
  rw [none']

theorem walk_next {k : Nat} (found : h.rest.findIdx? (· = 0x0D) = some k) :
    h.walk = Headers.walk { h.line (h.rest.take k) with rest := h.rest.drop (k + 2) } := by
  refine whileSome_next headerStep_shrinks ?_
  unfold headerStep
  rw [found]

theorem Headers.rest_line (h : Headers) (line : Bytes) : (h.line line).rest = h.rest := by
  unfold Headers.line
  split
  · rfl
  · split <;> rfl

variable {block : Bytes}

/-- The lines of a block are its first one and those behind it. -/
theorem walks_iff {k : Nat} (ends : block.findIdx? (· = 0x0D) = some k) :
    (∀ line, Walks block line → LineInRange line) ↔
      LineInRange (block.take k) ∧ ∀ line, Walks (block.drop (k + 2)) line → LineInRange line := by
  constructor
  · exact fun all => ⟨all _ (.here ends), fun line more => all _ (.later ends more)⟩
  · rintro ⟨first, more⟩ line walks
    cases walks with
    | here ends' =>
      rw [ends] at ends'
      cases ends'
      exact first
    | later ends' walks =>
      rw [ends] at ends'
      cases ends'
      exact more line walks

theorem walks_none (none' : block.findIdx? (· = 0x0D) = none) (line : Bytes) : ¬ Walks block line := by
  intro walks
  cases walks with
  | here ends => rw [none'] at ends; cases ends
  | later ends _ => rw [none'] at ends; cases ends

theorem walk_ended (none' : block.findIdx? (· = 0x0D) = none) (h : Headers) :
    Checks (some h) { Headers.walk { h with rest := block } with rest := h.rest }
      (∀ line, Walks block line → LineInRange line) := by
  have done : Headers.walk { h with rest := block } = { h with rest := block } := walk_done none'
  rw [done]
  exact .sure h fun line walks => absurd walks (walks_none none' line)

/-- The walk by indices is the walk over what is left of the block, if every line is in range. -/
theorem walkChecked_checks {stop : Nat} (inside : stop ≤ all.length) {fuel start : Nat} (enough : stop < fuel + start)
    (h : Headers) : Checks (walkChecked all stop fuel start h)
      { Headers.walk { h with rest := slice all start stop } with rest := h.rest }
      (∀ line, Walks (slice all start stop) line → LineInRange line) := by
  induction fuel generalizing start h with
  | zero =>
    refine walk_ended ?_ h
    rw [slice, Nat.sub_eq_zero_of_le (by omega)]
    rfl
  | succ fuel ih =>
    unfold walkChecked
    by_cases more : start < stop
    · rw [if_pos more, slice?, if_pos ⟨Nat.le_of_lt more, inside⟩, bind_some]
      cases found : (slice all start stop).findIdx? (· = 0x0D) with
      | none => exact walk_ended found h
      | some k =>
        have short := (findIdx?_eq_some_iff_getElem.mp found).1
        rw [slice_length _ _ _ inside] at short
        have line : (slice all start stop).take k = slice all start (start + k) := by
          rw [slice, slice, take_take, Nat.min_eq_left (by omega), Nat.add_sub_cancel_left]
        have rest : (slice all start stop).drop (k + 2) = slice all (start + k + 2) stop := by
          rw [slice, slice, drop_take, drop_drop, Nat.sub_sub, ← Nat.add_assoc]
        have next : Headers.walk { h with rest := slice all start stop } =
            Headers.walk { h.line (slice all start (start + k)) with rest := slice all (start + k + 2) stop } := by
          rw [walk_next found, Headers.line_rest, line, rest]
        have tail := @ih (start + k + 2) (by omega) (h.line (slice all start (start + k)))
        rw [Headers.rest_line] at tail
        dsimp only
        rw [walks_iff found, slice?, if_pos ⟨by omega, by omega⟩, line, rest, next]
        exact (lineChecked_checks _).bind tail
    · rw [if_neg more]
      refine walk_ended ?_ h
      rw [slice, Nat.sub_eq_zero_of_le (Nat.not_lt.mp more)]
      rfl

/-! ## The status -/

theorem digit?_checks {i : Nat} (inside : i < all.length) :
    Checks (all[i]?.bind digit?) (octet all i - 0x30).toNat (0x30 ≤ octet all i) := by
  rw [getElem?_octet inside]
  exact .ite

/-- Three digits, and even three octets, fit 16 bits. -/
theorem sum16?_checks (a b c : UInt8) :
    Checks (sum16? (a.toNat * 100 + b.toNat * 10 + c.toNat))
      (a.toUInt16 * 100 + b.toUInt16 * 10 + c.toUInt16) True := by
  have ha := a.toNat_lt
  have hb := b.toNat_lt
  have hc := c.toNat_lt
  rw [sum16?, if_pos (by omega)]
  refine ⟨fun _ => congrArg some ?_, absurd trivial⟩
  apply UInt16.toNat_inj.mp
  simp only [UInt16.toNat_add, UInt16.toNat_mul, UInt8.toNat_toUInt16, UInt16.toNat_ofNat', UInt16.reduceToNat]
  omega

theorem statusChecked_checks : Checks (statusChecked all) (statusCode all) (StatusInRange all) := by
  unfold statusChecked statusCode StatusInRange
  rw [spaceFrom_eq (by omega), bind_some, Nat.zero_add, drop_zero]
  dsimp only
  split
  next room =>
    refine ((digit?_checks (by omega)).bind ((digit?_checks (by omega)).bind
      ((digit?_checks room).bind ((sum16?_checks _ _ _).map some)))).congr ?_
    constructor
    · rintro ⟨first, second, third, -⟩ - k low high
      obtain rfl | rfl | rfl : k = 1 ∨ k = 2 ∨ k = 3 := by omega
      · exact first
      · exact second
      · exact third
    · exact fun digits => ⟨digits room 1 (by omega) (by omega), digits room 2 (by omega) (by omega),
        digits room 3 (by omega) (by omega), trivial⟩
  next short => exact .sure _ fun room => absurd room short

/-! ## The whole head -/

theorem findEndChecked_range (buf : Bytes) :
    findEndChecked buf (range (buf.length - 3)) = some (findHeadersEnd buf) := by
  refine findEndChecked_eq fun i inside => ?_
  have := mem_range.mp inside
  omega

theorem findHeadersEnd_inside {buf : Bytes} {stop : Nat} (found : findHeadersEnd buf = some stop) :
    stop ≤ buf.length := by
  have inside := mem_of_find?_eq_some found
  have := mem_range.mp inside
  omega

/-- On any octets: nothing is read out of range, and nothing wraps around exactly if they are in range. -/
theorem parseHeadersChecked_iff (c : Client) (all : Bytes) : c.parseHeadersChecked all = some (c.parseHeaders all) ↔
      (12 ≤ all.length → (ascii "HTTP/").isPrefixOf all = true → InRange all) := by
  refine Checks.some_iff ?_
  unfold Client.parseHeadersChecked Client.parseHeaders
  by_cases short : all.length < 12
  · rw [if_pos short, if_pos short]
    exact .sure c fun long => absurd long (by omega)
  by_cases http : (ascii "HTTP/").isPrefixOf all = true
  · rw [if_neg short, if_neg short, http]
    have both : (StatusInRange all ∧ ∀ stop, findHeadersEnd all = some stop → ∀ line, Walks (all.take stop) line →
      LineInRange line) ↔
        (12 ≤ all.length → true = true → InRange all) :=
      ⟨fun both _ _ => ⟨both.1, both.2⟩, fun inRange => have h := inRange (by omega) rfl; ⟨h.status, h.lengths⟩⟩
    refine (statusChecked_checks.bind ?_).congr both
    rw [findEndChecked_range]
    cases found : findHeadersEnd all with
    | none => exact .sure _ fun stop none => absurd none.symm (some_ne_none stop)
    | some stop =>
      have walked := @walkChecked_checks all stop (findHeadersEnd_inside found) (stop + 1) 0 (Nat.lt_succ_self stop)
        ⟨[], c.bodyDeclared, c.redirect, c.location⟩
      exact (walked.map _).congr ⟨fun lines stop' same => Option.some.inj same ▸ lines, fun lines => lines stop rfl⟩
  · rw [if_neg short, if_neg short, eq_false_of_ne_true http, getElem?_octet (by omega)]
    exact .sure _ fun _ yes => absurd yes Bool.false_ne_true

/-! ## Every response -/

/-- However a response with a head in good form is split over ticks, the client understands the head
exactly if it is a plain one; and on any octets whatever nothing is out of range exactly if they are in
range. -/
theorem heads_iff (c : Client) (host : Str) :
    (c.Awaits host → ∀ (head : Head) (rest : Bytes) (seen : List Bytes), head.octets.length ≤ headerScan →
      (∀ arrived ∈ seen, arrived <+: head.octets ++ rest) → (∃ arrived ∈ seen, head.octets.length ≤ arrived.length) →
      (Understood head (c.reads seen) ↔ Plain head c)) ∧
    ∀ all : Bytes, c.parseHeadersChecked all = some (c.parseHeaders all) ↔
      (12 ≤ all.length → (ascii "HTTP/").isPrefixOf all = true → InRange all) := by
  refine ⟨fun awaits head rest seen fits fronts whole => ?_, parseHeadersChecked_iff c⟩
  rw [(reads_head awaits.unread fits fronts).1 whole]
  exact understood_iff awaits fits

/-- The length of the body in the last header line goes unread. -/
theorem last_line_unread : ¬ ∀ (c : Client) (host : Str) (head : Head) (rest : Bytes) (seen : List Bytes),
    c.Awaits host →
    head.octets.length ≤ headerScan → (∀ arrived ∈ seen, arrived <+: head.octets ++ rest) →
    (∃ arrived ∈ seen, head.octets.length ≤ arrived.length) → Understood head (c.reads seen) := by
  intro always
  obtain ⟨head, octets, length⟩ : ∃ head : Head,
      head.octets = ascii "HTTP/1.0 200 OK\r\nServer: a\r\nContent-Length: 5\r\n\r\n" ∧ head.contentLength = some 5 :=
    ⟨⟨ascii "HTTP/1.0", 2, 0, 0, ascii " OK", [ascii "Server: a", ascii "Content-Length: 5"], ⟨ascii "1.0", rfl⟩,
      by decide, fun b first => (Option.some.inj first).symm, by decide, by decide, by decide, by decide,
      fun v inside => mem_singleton.mp inside ▸ ⟨cons_ne_nil _ _, all_eq_true.mp rfl⟩,
      fun v inside => absurd inside not_mem_nil⟩, by decide, by decide⟩
  have read := (always { target := [0x61] } ⟨[0x61], by decide⟩ head [] [head.octets] ⟨rfl, rfl, rfl, rfl, rfl⟩
    (by rw [octets]; decide) (by simp) ⟨_, mem_singleton.mpr rfl, le_rfl⟩).length
  rw [octets, length] at read
  revert read
  decide

end BarryOS.Net.Http
