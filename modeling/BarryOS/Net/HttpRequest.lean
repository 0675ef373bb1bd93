import BarryOS.Crypto.TlsTrust
import BarryOS.Net.HttpAddress
import BarryOS.Net.HttpRedirect

/-!
# The request that is handed to the transport

A request should ask for the whole path and query of the URL, name the URL's host, with the port
unless it is the default, and end in an empty line (`Requests`). `build_request` writes what `begin`
read into a buffer of 512 octets as it stands. That is the request of the URL exactly for the URLs of
`Simple` (`request_iff`), in every state of the fetch until the next one begins.
-/

namespace BarryOS.Net.Http

open Lib List Nat

/-! ## What a request says -/

/-- Neither a blank nor a control character. -/
def visible (b : UInt8) : Bool := 0x20 < b && b ≠ 0x7F

/-- The lines of every request, and the empty one. -/
def fixedLines : Bytes :=
  ascii "\r\nUser-Agent: barryOS/0.13\r\n" ++ ascii "Accept: text/html, text/plain, */*\r\n" ++
    ascii "Connection: close\r\n\r\n"

def wholeRequest (host path : Bytes) : Bytes :=
  ascii "GET " ++ (path ++ (ascii " HTTP/1.0\r\nHost: " ++ (host ++ fixedLines)))

/-- The host, with its port unless that is the default. -/
def hostField (url : Bytes) : Bytes :=
  (address url).host ++
    if (address url).port = defaultPort (scheme url).2 then [] else 0x3A :: ascii (toString (address url).port.toNat)

/-- One request, with nothing but the path and the host from the URL, and neither of them with a blank
or the end of a line in it. -/
structure Requests (url req : Bytes) : Prop where
  octets : req = wholeRequest (hostField url) (address url).path
  path : ∀ b ∈ (address url).path, visible b = true
  host : ∀ b ∈ (address url).host, visible b = true

/-- No fragment, no query right behind the authority, no user information, the default port, no blanks
or control characters, and not too long. -/
structure Simple (url : Bytes) : Prop where
  fragment : 0x23 ∉ (scheme url).1
  query : 0x3F ∉ (scheme url).1.takeWhile (· ≠ 0x2F)
  user : 0x40 ∉ (scheme url).1.takeWhile (· ≠ 0x2F)
  port : (address url).port = defaultPort (scheme url).2
  path : ∀ b ∈ (address url).path, visible b = true
  host : ∀ b ∈ (address url).host, visible b = true
  short : (address url).path.length + (address url).host.length ≤ 406

/-! ## The buffer -/

theorem buildRequest_eq (host path : Bytes) : buildRequest host path = (wholeRequest host path).take 512 := by
  simp [buildRequest, wholeRequest, fixedLines]

theorem wholeRequest_length (host path : Bytes) :
    (wholeRequest host path).length = path.length + host.length + 106 := by
  have get : (ascii "GET ").length = 4 := by decide
  have version : (ascii " HTTP/1.0\r\nHost: ").length = 17 := by decide
  have fixed : fixedLines.length = 85 := by decide
  simp only [wholeRequest, length_append]
  omega

/-- The buffer shows the path up to its first blank or number sign. -/
theorem path_of_cut {host host' path path' : Bytes} (plain : ∀ b ∈ path', b ≠ 0x20 ∧ b ≠ 0x23)
    (same : (wholeRequest host path).take 512 = wholeRequest host' path') :
    (path.takeWhile fun b => b ≠ 0x20 && b ≠ 0x23) = path' ∧ ∀ more, path ≠ path' ++ 0x23 :: more := by
  have room := congrArg length same
  rw [length_take, wholeRequest_length, wholeRequest_length] at room
  have behind : (path ++ (ascii " HTTP/1.0\r\nHost: " ++ (host ++ fixedLines))).take 508 =
      path' ++ (ascii " HTTP/1.0\r\nHost: " ++ (host' ++ fixedLines)) := by
    unfold wholeRequest at same
    rw [take_append] at same
    exact append_cancel_left same
  obtain ⟨version, blank⟩ : ∃ version, ascii " HTTP/1.0\r\nHost: " = 0x20 :: version := ⟨_, rfl⟩
  rw [blank, cons_append, cons_append] at behind
  constructor
  · have whole : (path'.takeWhile fun b => b ≠ 0x20 && b ≠ 0x23) = path' :=
      takeWhile_eq_self_iff.mpr fun b inside => by simpa using plain b inside
    have shown := congrArg (takeWhile fun b => b ≠ 0x20 && b ≠ 0x23) behind
    rw [← take_takeWhile, takeWhile_append_stop (by decide), takeWhile_append_stop (by decide), whole] at shown
    exact eq_of_take shown (by omega)
  · intro more cut
    rw [cut, append_assoc, take_append, take_of_length_le (by omega)] at behind
    have next := append_cancel_left behind
    obtain ⟨n, left⟩ : ∃ n, 508 - path'.length = n + 1 := ⟨507 - path'.length, by omega⟩
    rw [left, cons_append, take_succ_cons, cons.injEq] at next
    exact absurd next.1 (by decide)

/-- The buffer shows the whole host, for the next slash stands behind it. -/
theorem host_of_cut {host host' path : Bytes} (slash : 0x2F ∉ host) (slash' : 0x2F ∉ host')
    (same : (wholeRequest host path).take 512 = wholeRequest host' path) :
    host = host' ∧ (wholeRequest host path).length ≤ 512 := by
  have room := congrArg length same
  rw [length_take, wholeRequest_length, wholeRequest_length] at room
  have version : (ascii " HTTP/1.0\r\nHost: ").length = 17 := by decide
  have behind : (host ++ fixedLines).take (491 - path.length) = host' ++ fixedLines := by
    unfold wholeRequest at same
    rw [take_append, take_of_length_le (by decide), append_cancel_left_eq, take_append,
      take_of_length_le (by rw [show (ascii "GET ").length = 4 from rfl]; omega), append_cancel_left_eq,
      take_append, take_of_length_le (by rw [show (ascii "GET ").length = 4 from rfl]; omega),
      append_cancel_left_eq, show (ascii "GET ").length = 4 from rfl] at same
    rw [← same]
    congr 1
    omega
  obtain ⟨agent, more, split, plain, few⟩ :
      ∃ agent more, fixedLines = agent ++ 0x2F :: more ∧ 0x2F ∉ agent ∧ agent.length < 85 :=
    ⟨fixedLines.take 21, fixedLines.drop 22, by decide, by decide, by decide⟩
  have noSlash : ∀ h : Bytes, 0x2F ∉ h → (h ++ agent).takeWhile (· ≠ 0x2F) = h ++ agent := by
    intro h no
    rw [takeWhile_eq_self_iff]
    intro b inside
    rw [decide_eq_true_eq]
    rintro rfl
    exact (mem_append.mp inside).elim no plain
  have shown := congrArg (takeWhile (· ≠ 0x2F)) behind
  rw [split, ← take_takeWhile, ← append_assoc, ← append_assoc, takeWhile_append_stop (by decide),
    takeWhile_append_stop (by decide), noSlash _ slash, noSlash _ slash'] at shown
  have equal : host = host' := append_cancel_right (eq_of_take shown (by rw [length_append]; omega))
  rw [equal, wholeRequest_length]
  exact ⟨rfl, by omega⟩

/-! ## URLs -/

variable {b : UInt8}

theorem mem_decimal {n : Nat} (inside : b ∈ ascii (toString n)) : isDigit b = true := by
  obtain ⟨c, member, here⟩ := mem_map.mp inside
  rw [toString_eq_repr, toList_repr] at member
  have digit := isDigit_of_mem_toDigits (by decide) (by decide) member
  simp only [Char.isDigit, Bool.and_eq_true, decide_eq_true_eq] at digit
  have low : 48 ≤ c.toNat := digit.1
  have high : c.toNat ≤ 57 := digit.2
  rw [← here]
  simp only [isDigit, Bool.and_eq_true, decide_eq_true_eq, UInt8.le_iff_toNat_le, UInt8.toNat_ofNat']
  rw [mod_eq_of_lt (by omega)]
  exact ⟨low, high⟩

theorem decimal_length (port : UInt16) : (ascii (toString port.toNat)).length ≤ 5 := by
  have small := port.toNat_lt
  rw [ascii, length_map, toString_eq_repr, toList_repr, length_toDigits_le_iff (by decide) (by decide)]
  omega

variable {url : Bytes}

/-- An octet of the Host line is one of the host, a colon or a digit. -/
theorem mem_hostField (inside : b ∈ hostField url) : b ∈ (address url).host ∨ b = 0x3A ∨ isDigit b = true := by
  rcases mem_append.mp inside with inside | inside
  · exact .inl inside
  split at inside
  · cases inside
  rcases mem_cons.mp inside with here | inside
  · exact .inr (.inl here)
  · exact .inr (.inr (mem_decimal inside))

theorem hostField_plain (stop : endsAuthority b = true ∨ b = 0x40) : b ∉ hostField url := by
  intro inside
  rcases mem_hostField inside with inside | rfl | digit
  · obtain ⟨-, user, goes⟩ := mem_address_host inside
    rcases stop with stop | stop
    · rw [goes] at stop
      cases stop
    · exact user stop
  · revert stop
    decide
  · rcases stop with stop | rfl
    · simp only [endsAuthority, Bool.or_eq_true, decide_eq_true_eq] at stop
      rcases stop with (rfl | rfl) | rfl <;> exact absurd digit (by decide)
    · exact absurd digit (by decide)

theorem hostField_length (url : Bytes) : (hostField url).length ≤ (address url).host.length + 6 := by
  have digits := decimal_length (address url).port
  unfold hostField
  rw [length_append]
  split
  · exact le_add_right _ _
  rw [length_cons]
  omega

/-- What a URL asks for, and of whom, stands before its fragment. -/
theorem address_length (url : Bytes) :
    (address url).path.length + (address url).host.length ≤ ((scheme url).1.takeWhile (· ≠ 0x23)).length + 1 := by
  obtain ⟨front, same⟩ : ∃ front, front = (scheme url).1.takeWhile fun b => !endsAuthority b := ⟨_, rfl⟩
  have host : (address url).host.length ≤ front.length := by
    rw [same]
    exact le_trans (hostPort_length _ _) (behindUser_length _)
  have path : (address url).path.length ≤
      (((scheme url).1.dropWhile fun b => !endsAuthority b).takeWhile (· ≠ 0x23)).length + 1 :=
    pathOf_length _
  have whole : (scheme url).1.takeWhile (· ≠ 0x23) =
      front ++ ((scheme url).1.dropWhile fun b => !endsAuthority b).takeWhile (· ≠ 0x23) := by
    rw [← takeWhile_append_of_pos, same, takeWhile_append_dropWhile]
    intro b inside
    rw [same] at inside
    have goes := mem_takeWhile_imp inside
    simp only [endsAuthority, Bool.not_eq_true', Bool.or_eq_false_iff] at goes
    simpa using goes.2
  rw [whole, length_append]
  omega

variable {t : Target}

/-- Before a number sign in the authority there is too little to fill the buffer. -/
theorem not_requests_of_fragment (reads : Reads url t) (inside : 0x23 ∈ (scheme url).1.takeWhile (· ≠ 0x2F)) :
    ¬ Requests url (buildRequest t.host t.path) := by
  intro h
  obtain ⟨authority, same⟩ : ∃ authority, authority = (scheme url).1.takeWhile (· ≠ 0x2F) := ⟨_, rfl⟩
  have host := reads.host
  rw [← same] at host inside
  have member : 0x23 ∈ t.host := by
    rw [host]
    exact mem_hostPort _ inside (by decide) (by decide) (by decide)
  have before : ∀ {l rest : Bytes}, 0x23 ∈ l → (l ++ rest).takeWhile (· ≠ 0x23) = l.takeWhile (· ≠ 0x23) := by
    intro l rest found
    obtain ⟨front, more, cut⟩ := append_of_mem found
    rw [cut, append_assoc, cons_append, takeWhile_append_stop (by decide), takeWhile_append_stop (by decide)]
  have front : (scheme url).1.takeWhile (· ≠ 0x23) = t.host.takeWhile (· ≠ 0x23) := by
    rw [← takeWhile_append_dropWhile (p := (· ≠ 0x2F)) (l := (scheme url).1), ← same, before inside]
    rcases hostPort_parts authority (defaultPort (scheme url).2) with whole | ⟨p, whole, -⟩
    · rw [host, whole]
    rw [← host] at whole
    rw [whole, before member]
  have few := address_length url
  rw [front] at few
  have cut := (takeWhile_sublist (l := t.host) (· ≠ 0x23)).length_le
  have small := reads.short
  have field := hostField_length url
  have octets := h.octets
  rw [buildRequest_eq] at octets
  have shown := eq_of_take octets (by rw [wholeRequest_length]; omega)
  have found : 0x23 ∈ wholeRequest (hostField url) (address url).path := by
    rw [← shown]
    simp [wholeRequest, member]
  have pathPlain := fragment_not_mem_path url
  have hostPlain : 0x23 ∉ hostField url := hostField_plain (.inl (by decide))
  simp only [wholeRequest, mem_append, pathPlain, hostPlain] at found
  revert found
  decide

/-- A path goes at most one octet further than what it was made of. -/
theorem pathOf_front (tail : Bytes) :
    ((pathOf tail).takeWhile fun b => b ≠ 0x20 && b ≠ 0x23).length ≤ (tail.takeWhile (· ≠ 0x23)).length + 1 := by
  have fewer : ∀ l : Bytes, (l.takeWhile fun b => b ≠ 0x20 && b ≠ 0x23).length ≤ (l.takeWhile (· ≠ 0x23)).length := by
    intro l
    simpa [takeWhile_takeWhile] using (takeWhile_sublist (l := l.takeWhile (· ≠ 0x23)) (· ≠ 0x20)).length_le
  unfold pathOf
  split
  · exact le_succ_of_le (fewer tail)
  exact succ_le_succ (fewer tail)

/-- A path with a fragment is what is asked for and the fragment. -/
theorem pathOf_cut {rest : Bytes} (inside : 0x23 ∈ rest.dropWhile (· ≠ 0x2F)) :
    ¬ ∀ more, pathOf (rest.dropWhile (· ≠ 0x2F)) ≠ pathOf ((rest.dropWhile (· ≠ 0x2F)).takeWhile (· ≠ 0x23)) ++
      0x23 :: more := by
  intro never
  have head := head?_dropWhile_not (fun b : UInt8 => decide (b ≠ 0x2F)) rest
  cases behind : rest.dropWhile fun b => decide (b ≠ 0x2F) with
  | nil =>
    rw [behind] at inside
    cases inside
  | cons b path =>
    rw [behind] at head inside never
    have slash : b = 0x2F := by simpa using head
    subst slash
    obtain ⟨front, more, cut, first⟩ := eq_append_cons_of_mem ((mem_cons.mp inside).resolve_left (by decide))
    have clean : ∀ b ∈ front, decide (b ≠ 0x23) = true := fun b member => by
      rw [decide_eq_true_eq]
      exact fun here => first (here ▸ member)
    apply never more
    rw [cut, takeWhile_cons_of_pos (by decide), takeWhile_append_of_pos clean, takeWhile_cons_of_neg (by decide),
      append_nil]
    rfl

/-- A query before the first slash is longer than what `begin` asks for. -/
theorem not_requests_of_query (reads : Reads url t) (inside : 0x3F ∈ (scheme url).1.takeWhile (· ≠ 0x2F))
    (fragment : 0x23 ∉ (scheme url).1.takeWhile (· ≠ 0x2F)) : ¬ Requests url (buildRequest t.host t.path) := by
  intro h
  have octets := h.octets
  rw [buildRequest_eq] at octets
  have pathPlain := fragment_not_mem_path url
  obtain ⟨shown, -⟩ := path_of_cut (fun b member => ⟨fun here => absurd (h.path b member) (by rw [here]; decide),
    fun here => pathPlain (here ▸ member)⟩) octets
  obtain ⟨authority, same⟩ : ∃ authority, authority = (scheme url).1.takeWhile (· ≠ 0x2F) := ⟨_, rfl⟩
  obtain ⟨tail, same'⟩ : ∃ tail, tail = (scheme url).1.dropWhile (· ≠ 0x2F) := ⟨_, rfl⟩
  have whole : (scheme url).1 = authority ++ tail := by
    rw [same, same', takeWhile_append_dropWhile]
  rw [← same] at inside fragment
  -- The authority ends at the question mark, and the query goes on to the first slash and behind it.
  obtain ⟨front, more, cut, first⟩ := eq_append_cons_of_mem inside
  have clean : ∀ b ∈ authority, b ≠ 0x2F ∧ b ≠ 0x23 := by
    intro b member
    refine ⟨?_, fun here => fragment (here ▸ member)⟩
    rw [same] at member
    simpa using mem_takeWhile_imp member
  have goes : ∀ b ∈ front, (!endsAuthority b) = true := by
    intro b member
    obtain ⟨slash, sign⟩ := clean b (by rw [cut]; exact mem_append_left _ member)
    have mark : b ≠ 0x3F := fun here => first (here ▸ member)
    simp [endsAuthority, slash, sign, mark]
  have query : ((scheme url).1.dropWhile fun b => !endsAuthority b).takeWhile (· ≠ 0x23) =
      0x3F :: (more ++ tail.takeWhile (· ≠ 0x23)) := by
    rw [whole, cut, append_assoc, dropWhile_append_of_pos goes, cons_append,
      dropWhile_cons_of_neg (by decide), takeWhile_cons_of_pos (by decide), takeWhile_append_of_pos]
    intro b member
    simpa using (clean b (by rw [cut]; exact mem_append_right _ (mem_cons_of_mem _ member))).2
  have path : (address url).path = 0x2F :: 0x3F :: (more ++ tail.takeWhile (· ≠ 0x23)) := congrArg pathOf query
  have asked : (t.path.takeWhile fun b => b ≠ 0x20 && b ≠ 0x23).length ≤ (tail.takeWhile (· ≠ 0x23)).length + 1 := by
    rw [reads.path, ← same']
    exact pathOf_front tail
  have lengths := congrArg length shown
  rw [path, length_cons, length_cons, length_append] at lengths
  omega

/-- With neither, `begin` asks for the path up to the end of the URL, and of the host that stands before
the port, user information and all. -/
theorem requests_iff (found : target url = some t) : Requests url (buildRequest t.host t.path) ↔ Simple url := by
  have reads := target_reads found
  by_cases sign : 0x23 ∈ (scheme url).1.takeWhile (· ≠ 0x2F)
  · refine ⟨fun h => absurd h (not_requests_of_fragment reads sign), fun h => absurd ?_ h.fragment⟩
    exact (takeWhile_sublist _).subset sign
  by_cases mark : 0x3F ∈ (scheme url).1.takeWhile (· ≠ 0x2F)
  · exact ⟨fun h => absurd h (not_requests_of_query reads mark sign), fun h => absurd mark h.query⟩
  obtain ⟨authority, tail⟩ := authority_eq mark sign
  have path : (address url).path = pathOf (((scheme url).1.dropWhile (· ≠ 0x2F)).takeWhile (· ≠ 0x23)) := by
    rw [← tail]
    rfl
  have host : ((address url).host, (address url).port) =
      hostPort (behindUser ((scheme url).1.takeWhile (· ≠ 0x2F))) (defaultPort (scheme url).2) := by
    rw [← authority]
    rfl
  have samePath : 0x23 ∉ (scheme url).1.dropWhile (· ≠ 0x2F) → (address url).path = t.path := by
    intro absent
    rw [path, reads.path, takeWhile_eq_self_iff.mpr fun b inside => ?_]
    rw [decide_eq_true_eq]
    exact fun here => absent (here ▸ inside)
  have sameHost : 0x40 ∉ (scheme url).1.takeWhile (· ≠ 0x2F) → (address url).host = t.host := by
    intro absent
    rw [behindUser_of_not_mem absent] at host
    exact (congrArg Prod.fst host).trans reads.host.symm
  constructor
  · intro h
    have octets := h.octets
    rw [buildRequest_eq] at octets
    have pathPlain := fragment_not_mem_path url
    obtain ⟨-, goesOn⟩ := path_of_cut (fun b member => ⟨fun here => absurd (h.path b member) (by rw [here]; decide),
      fun here => pathPlain (here ▸ member)⟩) octets
    have fragment : 0x23 ∉ (scheme url).1.dropWhile (· ≠ 0x2F) := by
      intro inside
      rw [path, reads.path] at goesOn
      exact pathOf_cut inside goesOn
    rw [samePath fragment] at octets
    have slash : 0x2F ∉ t.host := by
      rw [reads.host]
      intro inside
      simpa using mem_takeWhile_imp (hostPort_subset _ _ inside)
    obtain ⟨equal, fits⟩ := host_of_cut slash (hostField_plain (.inl (by decide))) octets
    have user : 0x40 ∉ (scheme url).1.takeWhile (· ≠ 0x2F) := by
      intro inside
      have member : 0x40 ∈ t.host := by
        rw [reads.host]
        exact mem_hostPort _ inside (by decide) (by decide) (by decide)
      rw [equal] at member
      exact hostField_plain (.inr rfl) member
    refine ⟨?_, mark, user, ?_, h.path, h.host, ?_⟩
    · rw [← takeWhile_append_dropWhile (p := (· ≠ 0x2F)) (l := (scheme url).1), mem_append, not_or]
      exact ⟨sign, fragment⟩
    · rw [← sameHost user, hostField] at equal
      by_contra other
      rw [if_neg other] at equal
      simpa using congrArg length equal
    · rw [wholeRequest_length] at fits
      rw [samePath fragment, sameHost user]
      omega
  · intro h
    have fragment : 0x23 ∉ (scheme url).1.dropWhile (· ≠ 0x2F) := fun inside =>
      h.fragment ((dropWhile_sublist _).subset inside)
    have short := h.short
    have field : hostField url = t.host := by
      rw [hostField, if_pos h.port, append_nil, sameHost h.user]
    rw [samePath fragment, sameHost h.user] at short
    refine ⟨?_, h.path, h.host⟩
    rw [buildRequest_eq, field, samePath fragment, take_of_length_le]
    rw [wholeRequest_length]
    omega

/-! ## Until the next hop -/

variable (P : Crypto.Primitives) (env : Env)

/-- The same hop, with the same request in the buffer. -/
structure Within (s t : Stack) : Prop where
  req : t.http.req = s.http.req
  hop : t.hop = s.hop

theorem Within.trans {s t u : Stack} (first : Within s t) (second : Within t u) : Within s u :=
  ⟨second.req.trans first.req, second.hop.trans first.hop⟩

theorem Within.checkDeadline (s : Stack) : Within s (s.checkDeadline env) := by
  unfold Stack.checkDeadline
  split
  · exact ⟨rfl, rfl⟩
  dsimp only
  split
  · exact ⟨rfl, rfl⟩
  · split <;> exact ⟨rfl, rfl⟩

theorem begin_number (url : Bytes) (s : Stack) : (s.begin P env url).2.hop.number = s.hop.number + 1 := by
  obtain ⟨_, _, _, aside, -⟩ := begin_began P env url s
  exact congrArg Hop.number aside.hop

theorem followRedirect_within (s : Stack) :
    Within s (s.followRedirect P env) ∨ (s.followRedirect P env).hop.number = s.hop.number + 1 := by
  unfold Stack.followRedirect
  dsimp only
  split
  · exact .inl ⟨rfl, rfl⟩
  split
  · exact .inl ⟨rfl, rfl⟩
  · exact .inr (begin_number P env _ _)

theorem tickHttp_within (s : Stack) :
    Within s (s.tickHttp P env) ∨ (s.tickHttp P env).hop.number = s.hop.number + 1 := by
  obtain ⟨t, goes, -, result⟩ := tickHttp_cases P env s
  have within : Within s t := ⟨goes.req, goes.same.2.2⟩
  rcases result with ⟨-, checked⟩ | ⟨-, followed⟩ | ⟨-, returned⟩
  · rw [checked]
    exact .inl (within.trans (Within.checkDeadline env t))
  · rw [followed, ← within.hop]
    exact (followRedirect_within P env t).imp_left within.trans
  · rw [returned]
    exact .inl within

variable {s : Stack}

/-- A call that begins nothing leaves the request in the buffer. -/
theorem step_within (c : Call) (same : (s.step P c).hop.number = s.hop.number) : Within s (s.step P c) := by
  revert same
  unfold Stack.step
  cases c.event with
  | start url =>
    intro same
    have next := begin_number P c.env url { s with
      http := { s.http with hops := 0 }
      hop := { s.hop with fetch := s.hop.fetch + 1 } }
    exact absurd (same.symm.trans next) (Nat.ne_of_lt (Nat.lt_succ_self _))
  | frame octets =>
    have aside := receive_aside P c.env octets s
    exact fun _ => ⟨congrArg Client.req aside.http, aside.hop⟩
  | tick =>
    intro same
    rcases tickHttp_within P c.env
      (({ s with dns := s.dns.tick c.env.tcp.now }).transport P c.env .tick) with within | next
    · exact ⟨within.req, within.hop⟩
    · exact absurd (same.symm.trans next) (Nat.ne_of_lt (Nat.lt_succ_self _))
  | lookup name => exact fun _ => ⟨rfl, rfl⟩
  | take => exact fun _ => ⟨rfl, rfl⟩
  | server ip => exact fun _ => ⟨rfl, rfl⟩

/-- What `begin` puts into the buffer when it accepts a URL. -/
theorem begin_req (accepted : (s.begin P env url).1 = true) :
    ∃ t, target url = some t ∧ (s.begin P env url).2.http.req = buildRequest t.host t.path := by
  obtain ⟨c, phase, error, aside, ⟨-, -, refused⟩ | ⟨t, found, rfl, -⟩⟩ := begin_began P env url s
  · cases refused.symm.trans accepted
  · exact ⟨t, found, congrArg Client.req aside.http⟩

/-- A URL was accepted, and nothing else was begun since. -/
inductive Fetching (url : Bytes) : Stack → Prop where
  | began {env : Env} {s : Stack} (accepted : (s.begin P env url).1 = true) : Fetching url (s.begin P env url).2
  | call {s : Stack} (c : Call) (fetching : Fetching url s) (same : (s.step P c).hop.number = s.hop.number) :
      Fetching url (s.step P c)

theorem Fetching.req (h : Fetching P url s) : ∃ t, target url = some t ∧ s.http.req = buildRequest t.host t.path := by
  induction h with
  | began accepted => exact begin_req P _ accepted
  | call c _ same ih =>
    obtain ⟨t, found, req⟩ := ih
    exact ⟨t, found, (step_within P c same).req.trans req⟩

/-- A tick makes no request but that of the buffer. -/
theorem tick_requests (s : Stack) : ∃ new : List Request, (∀ r ∈ new, r.octets = s.http.req) ∧
    (s.tick P env).history.requests = s.history.requests ++ new := by
  obtain ⟨t, goes, -, result⟩ := tickHttp_cases P env (({ s with dns := s.dns.tick env.tcp.now }).transport P env .tick)
  obtain ⟨new, ours, requests⟩ := goes.requests
  refine ⟨new, fun r inside => ?_, ?_⟩
  · unfold Request.octets
    rw [(ours r inside).2, Stack.handing]
    cases (({ s with dns := s.dns.tick env.tcp.now } : Stack).transport P env .tick).http.useTls <;> rfl
  refine Eq.trans ?_ requests
  unfold Stack.tick
  rcases result with ⟨-, checked⟩ | ⟨-, followed⟩ | ⟨-, returned⟩
  · rw [checked]
    unfold Stack.checkDeadline
    split
    · rfl
    dsimp only
    split
    · rfl
    · split <;> rfl
  · rw [followed]
    unfold Stack.followRedirect
    dsimp only
    split
    · rfl
    split
    · rfl
    next url _ =>
      obtain ⟨_, _, _, aside, -⟩ := begin_began P env url { t with
        http := { t.http with hops := t.http.hops + 1 }
        history := { t.history with redirects := t.history.redirects ++ [t.hop.fetch] } }
      exact aside.requests
  · rw [returned]

/-- As long as a fetch goes on, what a tick hands to the transport is the request of its URL, exactly
for the URLs that are simple. -/
theorem request_iff (url : Bytes) (s : Stack) (fetching : Fetching P url s) :
    (∀ env, ∃ new : List Request, (∀ r ∈ new, r.octets = s.http.req) ∧
      (s.tick P env).history.requests = s.history.requests ++ new) ∧ (Requests url s.http.req ↔ Simple url) := by
  obtain ⟨t, found, req⟩ := fetching.req
  refine ⟨fun env => tick_requests P env s, ?_⟩
  rw [req]
  exact requests_iff found

/-- Over a link on which everything goes out. -/
def openEnv : Env := ⟨⟨0, 0, 40000, ⟨10, 0, 2, 15⟩, fun _ => true⟩, fun _ _ => 0, fun _ => true⟩

/-- The fetch of an address, as it begins. -/
def began (url : String) : Stack := ((Stack.boot 0).begin Crypto.samplePrimitives openEnv (ascii url)).2

theorem query_requested : Fetching Crypto.samplePrimitives (ascii "http://10.0.2.2/a?b") (began "http://10.0.2.2/a?b") ∧
    Requests (ascii "http://10.0.2.2/a?b") (began "http://10.0.2.2/a?b").http.req :=
  have fetching : Fetching Crypto.samplePrimitives (ascii "http://10.0.2.2/a?b") (began "http://10.0.2.2/a?b") :=
    .began (by decide +kernel)
  ⟨fetching, (request_iff Crypto.samplePrimitives _ _ fetching).2.mpr
    ⟨by decide, by decide, by decide, by decide, all_eq_true.mp rfl, all_eq_true.mp rfl, by decide⟩⟩

/-- The Host line of a URL with a port of its own names no port. -/
theorem port_not_named : ¬ ∀ (P : Crypto.Primitives) (url : Bytes) (s : Stack), Fetching P url s →
    Requests url s.http.req := by
  intro always
  have fetching : Fetching Crypto.samplePrimitives (ascii "http://10.0.2.2:8080/") (began "http://10.0.2.2:8080/") :=
    .began (by decide +kernel)
  have octets := (always _ _ _ fetching).octets
  revert octets
  decide +kernel

end BarryOS.Net.Http
