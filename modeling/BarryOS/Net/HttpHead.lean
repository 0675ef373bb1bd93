import BarryOS.Net.Http
import Mathlib.Data.List.DropRight

/-!
# The head of a response

`Head` is a head in good form: a status line, any number of header lines in any order, an empty line.
However much of the response has arrived when `parse_headers` looks at it, as long as that is less than
the head it learns at most the status; and as soon as it is the whole head it has read it (`reads_head`):
the status, where the body starts, and what stands in all the header lines but the last (`Head.read`).
-/

namespace BarryOS.Net.Http

open Lib List Nat

/-! ## Heads in good form -/

def crlf : Bytes := [0x0D, 0x0A]

/-- No carriage return and no line feed. -/
def OneLine (l : Bytes) : Prop := ∀ b ∈ l, b ≠ 0x0D ∧ b ≠ 0x0A

instance (l : Bytes) : Decidable (OneLine l) := decidableBAll (fun b => b ≠ 0x0D ∧ b ≠ 0x0A) l

def blank (b : UInt8) : Bool := b = 0x20 || b = 0x09

/-- The value of a header line of this name, without the blanks around it. -/
def fieldValue (name line : Bytes) : Option Bytes :=
  if (line.take name.length).map lower = name then some (((line.drop name.length).dropWhile blank).rdropWhile blank)
  else none

def decimal (v : Bytes) : Nat := v.foldl (fun n b => n * 10 + (b.toNat - 0x30)) 0

def lengthName : Bytes := ascii "content-length:"

def locationName : Bytes := ascii "location:"

def digitOctet (d : Fin 10) : UInt8 := 0x30 + UInt8.ofNat d.val

structure Head where
  version : Bytes
  hundreds : Fin 10
  tens : Fin 10
  ones : Fin 10
  reason : Bytes
  fields : List Bytes
  http : (ascii "HTTP/") <+: version
  word : 0x20 ∉ version
  apart : ∀ b ∈ reason.head?, b = 0x20
  statusLine : OneLine (version ++ reason)
  fieldLines : ∀ f ∈ fields, f ≠ [] ∧ OneLine f
  oneLength : (fields.filterMap (fieldValue lengthName)).length ≤ 1
  oneLocation : (fields.filterMap (fieldValue locationName)).length ≤ 1
  /-- A length is a number. -/
  number : ∀ v ∈ fields.filterMap (fieldValue lengthName), v ≠ [] ∧ ∀ b ∈ v, isDigit b = true
  /-- A location is an address in ASCII. -/
  uri : ∀ v ∈ fields.filterMap (fieldValue locationName), ∀ b ∈ v, 0x20 < b ∧ b < 0x7F

namespace Head

variable (head : Head)

def status : Nat := head.hundreds.val * 100 + head.tens.val * 10 + head.ones.val

def firstLine : Bytes :=
  head.version ++ 0x20 :: digitOctet head.hundreds :: digitOctet head.tens :: digitOctet head.ones :: head.reason

def lines : List Bytes := head.firstLine :: head.fields

def octets : Bytes := head.lines.flatMap (· ++ crlf) ++ crlf

def contentLength : Option Nat := (head.fields.filterMap (fieldValue lengthName)).head?.map decimal

def location : Option Bytes := (head.fields.filterMap (fieldValue locationName)).head?

end Head

/-! ## Where a head ends -/

/-- An empty line ends here. -/
def EndsAt (buf : Bytes) (i : Nat) : Prop := (crlf ++ crlf) <+: buf.drop i

variable {buf : Bytes}

theorem slice_eq_iff {j : Nat} : slice buf j (j + 4) = [0x0D, 0x0A, 0x0D, 0x0A] ↔ EndsAt buf j := by
  unfold EndsAt slice
  rw [prefix_iff_eq_take, Nat.add_sub_cancel_left]
  exact eq_comm

theorem findHeadersEnd_some {i : Nat} (ends : EndsAt buf i) (first : ∀ j < i, ¬ EndsAt buf j) :
    findHeadersEnd buf = some i := by
  have long := ends.length_le
  rw [length_drop, show (crlf ++ crlf).length = 4 from rfl] at long
  unfold findHeadersEnd
  rw [find?_range_eq_some]
  refine ⟨by simpa using slice_eq_iff.mpr ends, mem_range.mpr (by omega), fun j before => ?_⟩
  simpa using fun here => first j before (slice_eq_iff.mp here)

theorem findHeadersEnd_none (never : ∀ j, ¬ EndsAt buf j) : findHeadersEnd buf = none := by
  unfold findHeadersEnd
  rw [find?_eq_none]
  intro j _ here
  exact never j (slice_eq_iff.mp (of_decide_eq_true here))

theorem endsAt_append (front rest : Bytes) (j : Nat) : EndsAt (front ++ rest) (front.length + j) ↔ EndsAt rest j := by
  unfold EndsAt
  rw [← drop_drop, drop_left]

/-- No head ends within a line. -/
theorem not_endsAt_line {text rest : Bytes} (one : OneLine text) {j : Nat} (inside : j < text.length) :
    ¬ EndsAt (text ++ rest) j := by
  rintro ⟨more, same⟩
  rw [drop_append_of_le_length (le_of_lt inside), drop_eq_getElem_cons inside] at same
  have first : text[j] = 0x0D := (cons.inj same).1.symm
  exact (one _ (getElem_mem inside)).1 first

/-- Lines, each with its end, and an empty one: the empty line is found, and nothing before it. -/
theorem endsAt_lines (lines : List Bytes) (good : ∀ l ∈ lines, l ≠ [] ∧ OneLine l) (line rest : Bytes)
    (one : OneLine line) :
    EndsAt ((line :: lines).flatMap (· ++ crlf) ++ crlf ++ rest) (((line :: lines).flatMap (· ++ crlf)).length - 2) ∧
      ∀ j < ((line :: lines).flatMap (· ++ crlf)).length - 2,
        ¬ EndsAt ((line :: lines).flatMap (· ++ crlf) ++ crlf ++ rest) j := by
  induction lines generalizing line with
  | nil =>
    have text : [line].flatMap (· ++ crlf) ++ crlf ++ rest = line ++ (crlf ++ crlf ++ rest) := by simp
    have position : ([line].flatMap (· ++ crlf)).length - 2 = line.length + 0 := by simp [crlf]
    rw [text, position]
    refine ⟨(endsAt_append line _ 0).mpr (prefix_append _ _), fun j before => not_endsAt_line one (by omega)⟩
  | cons next lines ih =>
    obtain ⟨⟨some', oneNext⟩, good⟩ := forall_mem_cons.mp good
    obtain ⟨ends, first⟩ := ih good next oneNext
    obtain ⟨inner, innerEq⟩ : ∃ inner, inner = (next :: lines).flatMap (· ++ crlf) := ⟨_, rfl⟩
    rw [← innerEq] at ends first
    have enough : 3 ≤ inner.length := by
      have := length_pos_iff.mpr some'
      rw [innerEq, flatMap_cons, length_append, length_append]
      simp only [crlf, length_cons]
      omega
    have text : (line :: next :: lines).flatMap (· ++ crlf) ++ crlf ++ rest =
        line ++ (crlf ++ (inner ++ crlf ++ rest)) := by
      rw [innerEq]
      simp
    have position : ((line :: next :: lines).flatMap (· ++ crlf)).length - 2 =
        line.length + (2 + (inner.length - 2)) := by
      rw [flatMap_cons, ← innerEq, length_append, length_append]
      simp only [crlf, length_cons, length_nil]
      omega
    rw [text, position]
    refine ⟨(endsAt_append _ _ _).mpr ((endsAt_append crlf _ _).mpr ends), fun j before => ?_⟩
    by_cases inside : j < line.length
    · exact not_endsAt_line one inside
    obtain ⟨k, rfl⟩ : ∃ k, j = line.length + k := ⟨j - line.length, by omega⟩
    rw [endsAt_append]
    -- Neither half of the end of this line is the beginning of an empty one.
    match k, before with
    | 0, _ =>
      obtain ⟨b, more, cons⟩ := exists_cons_of_ne_nil some'
      rintro ⟨tail, same⟩
      rw [innerEq, flatMap_cons, cons] at same
      simp only [crlf, List.drop_zero, List.cons_append, List.nil_append, List.cons.injEq, true_and] at same
      exact (oneNext b (by rw [cons]; exact List.mem_cons_self)).1 same.1.symm
    | 1, _ =>
      rintro ⟨tail, same⟩
      have := (cons.inj same).1
      exact absurd this (by decide)
    | k + 2, before =>
      exact first k (by omega)

/-! ## The header lines -/

theorem OneLine.findIdx? {l : Bytes} (one : OneLine l) : l.findIdx? (· = 0x0D) = none := by
  rw [findIdx?_eq_none_iff]
  exact fun b inside => by simpa using (one b inside).1

theorem headerStep_shrinks (h next : Headers) (taken : headerStep h = some next) :
    next.rest.length < h.rest.length := by
  unfold headerStep at taken
  split at taken
  · cases taken
  rename_i k found
  cases taken
  have inside := (findIdx?_eq_some_iff_getElem.mp found).1
  rw [length_drop]
  omega

theorem Headers.line_rest (h : Headers) (line rest : Bytes) :
    { h with rest := rest }.line line = { h.line line with rest := rest } := by
  unfold Headers.line
  split
  · rfl
  · split <;> rfl

/-- The walk reads the lines that have a carriage return of their own. -/
theorem walk_lines (h : Headers) (lines : List Bytes) (last : Bytes) (good : ∀ l ∈ lines, OneLine l)
    (one : OneLine last) :
    Headers.walk { h with rest := lines.flatMap (· ++ crlf) ++ last } =
      { lines.foldl Headers.line h with rest := last } := by
  induction lines generalizing h with
  | nil =>
    refine whileSome_done ?_
    unfold headerStep
    rw [flatMap_nil, nil_append, one.findIdx?]
  | cons line lines ih =>
    obtain ⟨oneLine, good⟩ := forall_mem_cons.mp good
    have text : (line :: lines).flatMap (· ++ crlf) ++ last =
        line ++ 0x0D :: 0x0A :: (lines.flatMap (· ++ crlf) ++ last) := by
      simp [crlf]
    have found : (line ++ 0x0D :: 0x0A :: (lines.flatMap (· ++ crlf) ++ last)).findIdx? (· = 0x0D) =
        some line.length := by
      rw [findIdx?_append, oneLine.findIdx?]
      simp [findIdx?_cons]
    have step : headerStep { h with rest := (line :: lines).flatMap (· ++ crlf) ++ last } =
        some { h.line line with rest := lines.flatMap (· ++ crlf) ++ last } := by
      unfold headerStep
      rw [text, found]
      dsimp only
      rw [take_left, Headers.line_rest, ← drop_drop, drop_left]
      rfl
    unfold Headers.walk
    rw [whileSome_next headerStep_shrinks step]
    exact ih (h.line line) good

namespace Head

variable (head : Head)

theorem firstLine_oneLine : OneLine head.firstLine := by
  have parts := head.statusLine
  have digits : ∀ d, digitOctet d ≠ 0x0D ∧ digitOctet d ≠ 0x0A := by decide
  intro b inside
  simp only [firstLine, mem_append, mem_cons] at inside
  rcases inside with inside | rfl | rfl | rfl | rfl | inside
  · exact parts b (mem_append_left _ inside)
  · decide
  · exact digits _
  · exact digits _
  · exact digits _
  · exact parts b (mem_append_right _ inside)

theorem octets_length : 4 ≤ head.octets.length := by
  unfold octets lines
  rw [flatMap_cons, length_append, length_append, length_append]
  simp only [crlf, length_cons]
  omega

variable (rest : Bytes)

theorem octets_ends :
    EndsAt (head.octets ++ rest) (head.octets.length - 4) ∧ ∀ j < head.octets.length - 4,
      ¬ EndsAt (head.octets ++ rest) j := by
  have found := endsAt_lines head.fields head.fieldLines head.firstLine rest head.firstLine_oneLine
  have position : head.octets.length - 4 = (head.lines.flatMap (· ++ crlf)).length - 2 := by
    unfold octets
    rw [length_append, show crlf.length = 2 from rfl]
    omega
  rw [position]
  exact found

theorem findHeadersEnd_octets : findHeadersEnd (head.octets ++ rest) = some (head.octets.length - 4) :=
  findHeadersEnd_some (head.octets_ends rest).1 (head.octets_ends rest).2

theorem findHeadersEnd_part {part : Bytes} (front : part <+: head.octets) (short : part.length < head.octets.length) :
    findHeadersEnd part = none := by
  apply findHeadersEnd_none
  intro j ends
  have long := ends.length_le
  rw [length_drop, show (crlf ++ crlf).length = 4 from rfl] at long
  obtain ⟨more, same⟩ := front
  have inside : EndsAt (head.octets ++ []) j := by
    unfold EndsAt
    rw [append_nil, ← same, drop_append_of_le_length (by omega)]
    exact IsPrefix.trans ends (prefix_append _ _)
  exact (head.octets_ends []).2 j (by omega) inside

/-! ## The status -/

theorem status_octets : (digitOctet head.hundreds - 0x30).toUInt16 * 100 + (digitOctet head.tens - 0x30).toUInt16 * 10 +
    (digitOctet head.ones - 0x30).toUInt16 = UInt16.ofNat head.status := by
  have digit : ∀ d, (digitOctet d - 0x30).toUInt16 = UInt16.ofNat d.val := by decide
  rw [digit, digit, digit, status, UInt16.ofNat_add, UInt16.ofNat_add, UInt16.ofNat_mul, UInt16.ofNat_mul]
  rfl

/-- However much of a response has arrived, the status is the code or not there yet. -/
theorem statusCode_part {part rest : Bytes} (front : part <+: head.octets ++ rest) :
    statusCode part = if head.version.length + 3 < part.length then some (UInt16.ofNat head.status) else none := by
  obtain ⟨tail, text⟩ : ∃ tail, head.octets ++ rest =
      head.version ++ 0x20 :: digitOctet head.hundreds :: digitOctet head.tens :: digitOctet head.ones :: tail :=
    ⟨head.reason ++ (crlf ++ (head.fields.flatMap (· ++ crlf) ++ (crlf ++ rest))), by
      simp [octets, lines, firstLine]⟩
  rw [text, prefix_iff_eq_take] at front
  have word : head.version.takeWhile (· ≠ 0x20) = head.version := by
    rw [takeWhile_eq_self_iff]
    intro b inside
    rw [decide_eq_true_eq]
    exact fun here => head.word (here ▸ inside)
  have upto : part.takeWhile (· ≠ 0x20) = head.version.take part.length := by
    rw [congrArg (takeWhile fun b => decide (b ≠ 0x20)) front, ← take_takeWhile, takeWhile_append_stop (by decide),
      word]
  unfold statusCode
  rw [upto, length_take]
  by_cases room : head.version.length + 3 < part.length
  · have whole : min part.length head.version.length = head.version.length := by omega
    have shown : ∀ k < part.length, octet part k =
        octet (head.version ++ 0x20 ::
          digitOctet head.hundreds :: digitOctet head.tens :: digitOctet head.ones :: tail) k := by
      intro k inside
      rw [front, octet, octet, getD_eq_getElem?_getD, getD_eq_getElem?_getD, getElem?_take_of_lt inside]
    rw [whole, if_pos room, if_pos room, shown _ (by omega), shown _ (by omega), shown _ room, ← status_octets]
    simp [octet]
  · rw [if_neg (by omega), if_neg room]

theorem version_short : head.version.length + 8 ≤ head.octets.length := by
  unfold octets lines firstLine
  rw [flatMap_cons, length_append, length_append, length_append, length_append]
  simp only [crlf, length_cons]
  omega

/-! ## What is read of a head -/

/-- The walk over the header lines does not get to the last one. -/
def walked (c : Client) : Headers :=
  head.fields.dropLast.foldl Headers.line ⟨[], c.bodyDeclared, c.redirect, c.location⟩

/-- The client when it has read the head. -/
def read (c : Client) : Client :=
  { c with
    status := UInt16.ofNat head.status
    headersParsed := true
    bodyOffset := UInt32.ofNat head.octets.length
    bodyDeclared := (head.walked c).declared
    redirect := (head.walked c).redirect
    location := (head.walked c).location }

theorem line_firstLine (h : Headers) : h.line head.firstLine = h := by
  obtain ⟨rest, version⟩ := head.http
  have other : ∀ name : Bytes, name.head? ≠ some (lower 0x48) → name ≠ [] → headerValue head.firstLine name = none := by
    intro name first some'
    unfold headerValue
    split
    · rfl
    rw [if_pos]
    intro same
    apply first
    obtain ⟨b, more, cons⟩ := exists_cons_of_ne_nil some'
    rw [← same, firstLine, ← version, cons]
    rfl
  unfold Headers.line
  rw [other _ (by decide) (by decide), other _ (by decide) (by decide)]

theorem take_octets (more : Bytes) : ∃ last, OneLine last ∧ (∀ l ∈ head.lines.dropLast, OneLine l) ∧
    (head.octets ++ more).take (head.octets.length - 4) = head.lines.dropLast.flatMap (· ++ crlf) ++ last := by
  have good : ∀ l ∈ head.lines, OneLine l := by
    intro l inside
    rcases mem_cons.mp inside with rfl | inside
    · exact head.firstLine_oneLine
    · exact (head.fieldLines l inside).2
  have some' : head.lines ≠ [] := cons_ne_nil _ _
  have split := dropLast_append_getLast some'
  refine ⟨head.lines.getLast some', good _ (getLast_mem some'), fun l inside => good l (dropLast_subset _ inside), ?_⟩
  have text : head.octets = head.lines.dropLast.flatMap (· ++ crlf) ++ head.lines.getLast some' ++ (crlf ++ crlf) := by
    rw [octets]
    conv => lhs; rw [← split]
    simp
  have long : head.octets.length - 4 = (head.lines.dropLast.flatMap (· ++ crlf) ++
      head.lines.getLast some').length := by
    rw [text, length_append, show (crlf ++ crlf).length = 4 from rfl, Nat.add_sub_cancel]
  rw [long, text, append_assoc, take_left]

theorem foldl_lines (h :
    Headers) : head.lines.dropLast.foldl Headers.line h = head.fields.dropLast.foldl Headers.line h := by
  unfold lines
  cases fields : head.fields with
  | nil => rfl
  | cons f fs => rw [dropLast_cons_cons, foldl_cons, line_firstLine]

theorem octets_http : (ascii "HTTP/") <+: head.octets ++ rest := by
  have front : head.version <+: head.octets ++ rest := by
    unfold octets lines firstLine
    rw [flatMap_cons, append_assoc, append_assoc, append_assoc, append_assoc]
    exact prefix_append _ _
  exact IsPrefix.trans head.http front

theorem parseHeaders_whole (c : Client) (more : Bytes) : c.parseHeaders (head.octets ++ more) = head.read c := by
  have five := head.http.length_le
  rw [show (ascii "HTTP/").length = 5 from rfl] at five
  have long := head.version_short
  have http : (ascii "HTTP/").isPrefixOf (head.octets ++ more) = true :=
    isPrefixOf_iff_prefix.mpr (head.octets_http more)
  have room : head.version.length + 8 ≤ (head.octets ++ more).length := by
    rw [length_append]
    omega
  obtain ⟨last, one, good, text⟩ := head.take_octets more
  unfold Client.parseHeaders
  rw [if_neg (by omega), http, if_neg (by decide), head.statusCode_part (prefix_refl _), if_pos (by omega),
    findHeadersEnd_octets]
  dsimp only
  rw [text, walk_lines ⟨[], c.bodyDeclared, c.redirect, c.location⟩ _ last good one, foldl_lines,
    Nat.sub_add_cancel head.octets_length]
  rfl

theorem parseHeaders_part (c : Client) {part rest : Bytes} (front : part <+: head.octets ++ rest)
    (short : part.length < head.octets.length) : ∃ status, c.parseHeaders part = { c with status := status } := by
  have inside : part <+: head.octets := prefix_of_prefix_length_le front (prefix_append _ _) (le_of_lt short)
  unfold Client.parseHeaders
  split
  · exact ⟨c.status, rfl⟩
  rename_i long
  have http : (ascii "HTTP/") <+: part :=
    prefix_of_prefix_length_le (head.octets_http rest) front (le_trans (by decide) (not_lt.mp long))
  rw [List.isPrefixOf_iff_prefix.mpr http, head.findHeadersEnd_part inside short]
  exact ⟨_, rfl⟩

end Head

/-! ## However it arrives -/

/-- What a tick makes of what has arrived. -/
def Client.look (c : Client) (arrived : Bytes) : Client :=
  if c.headersParsed then c else c.parseHeaders (arrived.take headerScan)

/-- One tick after the other. -/
def Client.reads (c : Client) (seen : List Bytes) : Client := seen.foldl Client.look c

variable {c : Client}

theorem reads_parsed (parsed : c.headersParsed = true) (seen : List Bytes) : c.reads seen = c := by
  induction seen with
  | nil => rfl
  | cons arrived seen ih =>
    unfold Client.reads at ih ⊢
    rw [foldl_cons, Client.look, if_pos parsed]
    exact ih

theorem look_head {head : Head} {arrived rest : Bytes} (unread : c.headersParsed = false)
    (fits : head.octets.length ≤ headerScan) (front : arrived <+: head.octets ++ rest) :
    (head.octets.length ≤ arrived.length → c.look arrived = head.read c) ∧
      (arrived.length < head.octets.length → ∃ status, c.look arrived = { c with status := status }) := by
  unfold Client.look
  rw [if_neg (by rw [unread]; decide)]
  have cut : arrived.take headerScan <+: head.octets ++ rest := IsPrefix.trans (List.take_prefix _ _) front
  constructor
  · intro whole
    have covered : head.octets <+: arrived.take headerScan :=
      prefix_of_prefix_length_le (prefix_append _ _) cut (by rw [length_take]; omega)
    obtain ⟨more, same⟩ := covered
    rw [← same, head.parseHeaders_whole]
  · intro short
    exact head.parseHeaders_part c cut (by rw [length_take]; omega)

/-- However a response is split over ticks, its head has been read as soon as it is there, and before that
nothing but the status is known. -/
theorem reads_head {head : Head} {seen : List Bytes} {rest : Bytes} (unread : c.headersParsed = false)
    (fits : head.octets.length ≤ headerScan) (fronts : ∀ arrived ∈ seen, arrived <+: head.octets ++ rest) :
    ((∃ arrived ∈ seen, head.octets.length ≤ arrived.length) → c.reads seen = head.read c) ∧
      ((∀ arrived ∈ seen, arrived.length < head.octets.length) →
        ∃ status, c.reads seen = { c with status := status }) := by
  induction seen generalizing c with
  | nil => exact ⟨fun ⟨_, inside, _⟩ => absurd inside not_mem_nil, fun _ => ⟨c.status, rfl⟩⟩
  | cons first seen ih =>
    obtain ⟨front, fronts⟩ := forall_mem_cons.mp fronts
    obtain ⟨whole, part⟩ := look_head unread fits front
    have unfolded : c.reads (first :: seen) = (c.look first).reads seen := rfl
    rw [unfolded]
    by_cases covers : head.octets.length ≤ first.length
    · rw [whole covers, reads_parsed rfl]
      exact ⟨fun _ => rfl, fun short => absurd (short first mem_cons_self) (not_lt.mpr covers)⟩
    obtain ⟨status, looked⟩ := part (not_le.mp covers)
    rw [looked]
    obtain ⟨all, none'⟩ := ih (c := { c with status := status }) unread fronts
    refine ⟨fun ⟨arrived, inside, long⟩ => ?_, fun short => ?_⟩
    · rcases mem_cons.mp inside with rfl | inside
      · exact absurd long covers
      · exact all ⟨arrived, inside, long⟩
    · exact none' fun arrived inside => short arrived (mem_cons_of_mem _ inside)

end BarryOS.Net.Http
