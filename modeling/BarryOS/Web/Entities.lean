import BarryOS.Lib.Loop
import BarryOS.Lib.Text

/-!
# Character references

`decode_entities` of `apps/web/dom.rs`, and the few operations on bytes and strings
that the HTML parser shares with it. A `String` of the source is a `String` here;
`src[at..]` is the list of the bytes that are left. A position is moved by `advance`, which asks
for a proof that the bytes are there, so that no position is outside the input and no slice from
one fails.
-/

namespace BarryOS.Web

open Lib

/-- The byte of an ASCII character. -/
def ascii (c : Char) : UInt8 := UInt8.ofNat c.toNat

/-- `String::from_utf8_lossy(bytes).to_ascii_lowercase()`. -/
def lossyLower (bytes : Bytes) : String := String.ofList ((decodeLossy bytes).map Char.toLower)

/-- `at += n`: `src[at..]` from there on. -/
def advance (rest : Bytes) (n : Nat) (_fits : n ≤ rest.length) : Bytes := rest.drop n

def toAsciiLowercase (b : UInt8) : UInt8 := if ascii 'A' ≤ b && b ≤ ascii 'Z' then b + 32 else b

def isAsciiWhitespace (b : UInt8) : Bool := b = 0x20 || b = 0x09 || b = 0x0A || b = 0x0C || b = 0x0D

def isAsciiAlphanumeric (b : UInt8) : Bool :=
  ascii '0' ≤ b && b ≤ ascii '9' || ascii 'A' ≤ b && b ≤ ascii 'Z' || ascii 'a' ≤ b && b ≤ ascii 'z'

/-- `s.trim().is_empty()`. -/
def trimsToEmpty (s : String) : Bool := s.toList.all isWhitespace

def namedEntity : String → Option Char
  | "amp" => some '&' | "lt" => some '<' | "gt" => some '>'
  | "quot" => some (Char.ofNat 0x22) | "apos" => some (Char.ofNat 0x27)
  | "nbsp" | "NonBreakingSpace" => some (Char.ofNat 0xA0)
  | "copy" => some '©' | "reg" => some '®' | "trade" => some '™'
  | "hellip" => some '…' | "mdash" => some '—' | "ndash" => some '–'
  | "lsquo" => some (Char.ofNat 0x2018) | "rsquo" => some (Char.ofNat 0x2019)
  | "ldquo" => some (Char.ofNat 0x201C) | "rdquo" => some (Char.ofNat 0x201D)
  | "laquo" => some '«' | "raquo" => some '»' | "middot" => some '·' | "bull" => some '•'
  | "times" => some '×' | "divide" => some '÷' | "plusmn" => some '±' | "deg" => some '°'
  | "frac12" => some '½' | "frac14" => some '¼' | "frac34" => some '¾'
  | "sup1" => some '¹' | "sup2" => some '²' | "sup3" => some '³'
  | "micro" => some 'µ' | "para" => some '¶' | "sect" => some '§' | "dagger" => some '†'
  | "euro" => some '€' | "pound" => some '£' | "yen" => some '¥' | "cent" => some '¢'
  | "curren" => some '¤' | "infinity" => some '∞' | "ne" => some '≠' | "le" => some '≤'
  | "ge" => some '≥' | "larr" => some '←' | "rarr" => some '→' | "uarr" => some '↑'
  | "darr" => some '↓' | "harr" => some '↔' | "rarr2" => some '⇒'
  | "prime" => some '′' | "Prime" => some '″'
  | "alpha" => some 'α' | "beta" => some 'β' | "gamma" => some 'γ' | "delta" => some 'δ'
  | "epsilon" => some 'ε' | "theta" => some 'θ' | "lambda" => some 'λ' | "mu" => some 'μ'
  | "pi" => some 'π' | "sigma" => some 'σ' | "phi" => some 'φ' | "omega" => some 'ω'
  | "Alpha" => some 'Α' | "Beta" => some 'Β' | "Gamma" => some 'Γ' | "Delta" => some 'Δ'
  | "Theta" => some 'Θ' | "Lambda" => some 'Λ' | "Pi" => some 'Π' | "Sigma" => some 'Σ'
  | "Phi" => some 'Φ' | "Omega" => some 'Ω'
  | "OElig" => some 'Œ' | "oelig" => some 'œ' | "scaron" => some 'š' | "fnof" => some 'ƒ'
  | "spades" => some '♠' | "clubs" => some '♣' | "hearts" => some '♥' | "diams" => some '♦'
  | "loz" => some '◊' | "star" => some '☆' | "check" => some '✓' | "cross" => some '✗'
  | _ => none

/-- `(c as char).to_digit(radix)`. -/
def toDigit (c : UInt8) (radix : Nat) : Option Nat :=
  let digit :=
    if ascii '0' ≤ c && c ≤ ascii '9' then some (c.toNat - 48)
    else if ascii 'a' ≤ c && c ≤ ascii 'z' then some (c.toNat - 97 + 10)
    else if ascii 'A' ≤ c && c ≤ ascii 'Z' then some (c.toNat - 65 + 10)
    else none
  digit.filter (· < radix)

/-- `checked_mul(radix)?.checked_add(d)?` and the limit, one digit after the other. -/
def readDigits (radix : Nat) : Bytes → Nat → Option Nat
  | [], v => some v
  | c :: rest, v =>
    match toDigit c radix with
    | none => none
    | some d =>
      if v * radix ≥ 2 ^ 32 || v * radix + d ≥ 2 ^ 32 || v * radix + d > 0x10FFFF then none
      else readDigits radix rest (v * radix + d)

/-- `char::from_u32`. -/
def charFromU32 (v : Nat) : Option Char :=
  if v < 0xD800 || 0xDFFF < v && v < 0x110000 then some (Char.ofNat v) else none

def numericEntity : Bytes → Option Char
  | [] => none
  | b :: rest =>
    if b = ascii 'x' || b = ascii 'X' then (readDigits 16 rest 0).bind charFromU32
    else (readDigits 10 (b :: rest) 0).bind charFromU32

theorem semicolon_inside {rest : Bytes} {stop : Nat}
    (found : (rest.findIdx? (· = ascii ';')).filter (· ≤ 32) = some stop) : stop + 1 ≤ rest.length :=
  (List.findIdx?_eq_some_iff_findIdx_eq.mp (Option.filter_eq_some_iff.mp found).1).1

/-- The reference that starts after an ampersand, and how many bytes it takes there. -/
def entityAt (rest : Bytes) : Option (Char × { n // n ≤ rest.length }) :=
  match found : (rest.findIdx? (· = ascii ';')).filter (· ≤ 32) with
  | none => none
  | some stop =>
    let name := rest.take stop
    let decoded :=
      if name.head? = some (ascii '#') then numericEntity (name.drop 1)
      else if validUtf8 name then namedEntity (lossy name) else none
    decoded.map fun c => (c, ⟨stop + 1, semicolon_inside found⟩)

/-- One round of the loop: a run of other bytes, or what starts at an ampersand. -/
def decodeStep : Bytes × String → Option (Bytes × String)
  | ([], _) => none
  | (b :: rest, out) =>
    if b ≠ ascii '&' then
      some ((b :: rest).dropWhile (· ≠ ascii '&'), out ++ lossy ((b :: rest).takeWhile (· ≠ ascii '&')))
    else
      match entityAt rest with
      | some (c, taken) => some (advance rest taken taken.2, out.push c)
      | none => some (rest, out.push '&')

def decodeEntities (input : Bytes) : String :=
  (whileSome (fun s => s.1.length) decodeStep (input, "")).2

theorem length_dropWhile_cons_lt (p : UInt8 → Bool) {b : UInt8} (l : Bytes) (h : p b = true) :
    ((b :: l).dropWhile p).length < (b :: l).length := by
  rw [List.dropWhile_cons_of_pos h]
  exact Nat.lt_succ_of_le (List.dropWhile_sublist p).length_le

theorem decodeStep_shrinks (s next : Bytes × String) (h : decodeStep s = some next) : next.1.length < s.1.length := by
  obtain ⟨_ | ⟨b, rest⟩, out⟩ := s
  · cases h
  · simp only [decodeStep] at h
    split at h
    next other =>
      cases h
      exact length_dropWhile_cons_lt (· ≠ ascii '&') rest (decide_eq_true other)
    split at h
    all_goals
      cases h
      simp only [advance, List.length_drop, List.length_cons]
      omega

theorem decodeEntities_done (input : Bytes) : (whileSome (fun s => s.1.length) decodeStep (input, "")).1 = [] := by
  have stops := whileSome_stops decodeStep_shrinks (input, "")
  generalize whileSome (fun s => s.1.length) decodeStep (input, "") = s at stops
  obtain ⟨_ | ⟨b, rest⟩, out⟩ := s
  · rfl
  · simp only [decodeStep] at stops
    split at stops
    · cases stops
    · split at stops <;> cases stops

end BarryOS.Web
