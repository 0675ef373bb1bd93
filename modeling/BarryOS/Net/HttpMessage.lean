import BarryOS.Lib.Loop
import BarryOS.Lib.Utf8

/-!
# Addresses, requests and responses (net/http.rs)

The parts of the HTTP client that look at text: what `begin` reads out of a URL, the request
`build_request` puts together, what `parse_headers` finds in a response and the URL that
`follow_redirect` makes of it. A `&str` is its octets.
-/

namespace BarryOS.Net.Http

open Lib

/-- The octets of a text in ASCII. -/
def ascii (s : String) : Bytes := s.toList.map fun c => UInt8.ofNat c.toNat

def isDigit (b : UInt8) : Bool := 0x30 ≤ b && b ≤ 0x39

/-- `b.to_ascii_lowercase()`. -/
def lower (b : UInt8) : UInt8 := if 0x41 ≤ b && b ≤ 0x5A then b + 0x20 else b

/-! ## URLs -/

def https : Bytes := ascii "https://"

def http : Bytes := ascii "http://"

/-- The URL behind its scheme, and whether the fetch goes through TLS. A bare host means https. -/
def scheme (url : Bytes) : Bytes × Bool :=
  match url.dropPrefix? https with
  | some rest => (rest, true)
  | none =>
    match url.dropPrefix? http with
    | some rest => (rest, false)
    | none => (url, true)

/-- One more digit of a number that has to fit sixteen bits. -/
def digit16 (n : Option Nat) (b : UInt8) : Option Nat :=
  n.bind fun n =>
    let next := n * 10 + (b - 0x30).toNat
    if isDigit b && next < 65536 then some next else none

/-- `p.parse::<u16>()`. -/
def parseU16 (p : Bytes) : Option UInt16 :=
  let digits := if p.head? = some 0x2B then p.drop 1 else p
  if digits.isEmpty then none else (digits.foldl digit16 (some 0)).map UInt16.ofNat

/-- `s.rsplit_once(c)`. -/
def rsplitOnce (c : UInt8) (s : Bytes) : Option (Bytes × Bytes) :=
  let tail := s.reverse.takeWhile (· ≠ c)
  if tail.length = s.length then none
  else some ((s.reverse.drop (tail.length + 1)).reverse, tail.reverse)

/-- `host[:port]`. -/
def hostPort (authority : Bytes) (defaultPort : UInt16) : Bytes × UInt16 :=
  match rsplitOnce 0x3A authority with
  | none => (authority, defaultPort)
  | some (host, p) =>
    match parseU16 p with
    | some port => (host, port)
    | none => (authority, defaultPort)

structure Target where
  host : Bytes
  port : UInt16
  path : Bytes
  deriving DecidableEq

/-- Where a URL points; nothing when its host is missing or too long. -/
def target (url : Bytes) : Option Target :=
  let (rest, tls) := scheme url
  let authority := rest.takeWhile (· ≠ 0x2F)
  let path := rest.dropWhile (· ≠ 0x2F)
  let (host, port) := hostPort authority (if tls then 443 else 80)
  if authority.isEmpty then none
  else if host.isEmpty || host.length > 127 then none
  else some ⟨host, port, if path.isEmpty then [0x2F] else path⟩

/-! ## The request -/

/-- `build_request`: one request, as far as the buffer of 512 octets reaches. -/
def buildRequest (host path : Bytes) : Bytes :=
  (ascii "GET " ++ path ++ ascii " HTTP/1.0\r\nHost: " ++ host ++
    ascii "\r\nUser-Agent: barryOS/0.13\r\n" ++ ascii "Accept: text/html, text/plain, */*\r\n" ++
    ascii "Connection: close\r\n\r\n").take 512

/-! ## The response -/

/-- How much of the response is examined for its headers. -/
def headerScan : Nat := 8 * 1024

def findHeadersEnd (buf : Bytes) : Option Nat :=
  (List.range (buf.length - 3)).find? fun i => slice buf i (i + 4) = [0x0D, 0x0A, 0x0D, 0x0A]

/-- Case-insensitive header lookup, returning the value with leading spaces trimmed. -/
def headerValue (line name : Bytes) : Option Bytes :=
  if line.length < name.length then none
  else if (line.take name.length).map lower ≠ name then none
  else some ((line.drop name.length).dropWhile fun b => b = 0x20 || b = 0x09)

/-- `parse_dec`, kept to the 32 bits its caller takes. -/
def parseDec (v : Bytes) : UInt32 :=
  (v.takeWhile isDigit).foldl (fun n b => n * 10 + (b - 0x30).toUInt32) 0

/-- What the walk over the header lines has found so far. -/
structure Headers where
  rest : Bytes
  declared : UInt32
  redirect : Bool
  location : Bytes

/-- One header line. -/
def Headers.line (h : Headers) (line : Bytes) : Headers :=
  match headerValue line (ascii "content-length:") with
  | some v => { h with declared := parseDec v }
  | none =>
    match headerValue line (ascii "location:") with
    | some v => { h with redirect := true, location := v.take 256 }
    | none => h

/-- The walk stops at the first line without its own carriage return, which the last one never has:
its return is the one the header block ends with. -/
def headerStep (h : Headers) : Option Headers :=
  match h.rest.findIdx? (· = 0x0D) with
  | none => none
  | some k => some { h.line (h.rest.take k) with rest := h.rest.drop (k + 2) }

def Headers.walk (h : Headers) : Headers := whileSome (fun h => h.rest.length) headerStep h

/-- The three digits behind the first space. -/
def statusCode (all : Bytes) : Option UInt16 :=
  let i := (all.takeWhile (· ≠ 0x20)).length
  if i + 3 < all.length then
    some ((octet all (i + 1) - 0x30).toUInt16 * 100 + (octet all (i + 2) - 0x30).toUInt16 * 10 +
      (octet all (i + 3) - 0x30).toUInt16)
  else none

/-! ## Redirects -/

/-- `core::str::from_utf8(bytes).unwrap_or("")`. -/
def utf8OrEmpty (bytes : Bytes) : Bytes := if validUtf8 bytes then bytes else []

/-- The URL a redirect leads to, from the Location, the scheme and the host we asked for; nothing
when it would go from https to http. -/
def redirectUrl (location host : Bytes) (wasTls : Bool) : Option Bytes :=
  let loc := utf8OrEmpty location
  if https.isPrefixOf loc then some (utf8OrEmpty (loc.take 384))
  else if http.isPrefixOf loc then if wasTls then none else some (utf8OrEmpty (loc.take 384))
  else
    let root := if loc.head? = some 0x2F then [] else [0x2F]
    some (utf8OrEmpty (((if wasTls then https else http) ++ utf8OrEmpty host ++ root ++ loc).take 384))

theorem scheme_https (rest : Bytes) : scheme (https ++ rest) = (rest, true) := by
  unfold scheme
  rw [List.dropPrefix?_append_of_beq rest (BEq.rfl)]

/-- Neither the length of the buffer nor text that is cut in the middle takes the scheme away. -/
theorem scheme_cut (rest : Bytes) : (scheme (utf8OrEmpty ((https ++ rest).take 384))).2 = true := by
  unfold utf8OrEmpty
  split
  · have front : (https ++ rest).take 384 = https ++ rest.take 376 := by
      rfl
    rw [front, scheme_https]
  · rfl

/-- A redirect never leaves https. -/
theorem scheme_redirectUrl {location host url : Bytes} (next : redirectUrl location host true = some url) :
    (scheme url).2 = true := by
  unfold redirectUrl at next
  generalize utf8OrEmpty location = loc at next
  by_cases front : https.isPrefixOf loc = true
  · rw [if_pos front, Option.some.injEq] at next
    obtain ⟨rest, whole⟩ := List.isPrefixOf_iff_prefix.mp front
    rw [← next, ← whole]
    exact scheme_cut rest
  rw [if_neg front] at next
  by_cases plain : http.isPrefixOf loc = true
  · rw [if_pos plain] at next
    cases next
  rw [if_neg plain, Option.some.injEq] at next
  rw [← next]
  exact scheme_cut _

end BarryOS.Net.Http
