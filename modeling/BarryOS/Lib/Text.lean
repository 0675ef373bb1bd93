import BarryOS.Lib.Utf8

/-!
# Text

Functions of `str`, on lists of characters.
-/

namespace BarryOS.Lib

/-- `String::from_utf8_lossy(bytes)`. -/
def lossy (bytes : Bytes) : String := String.ofList (decodeLossy bytes)

/-- `char::is_whitespace`: the Unicode property White_Space. -/
def isWhitespace (c : Char) : Bool :=
  let n := c.toNat
  0x09 ≤ n && n ≤ 0x0D || n = 0x20 || n = 0x85 || n = 0xA0 || n = 0x1680 ||
    0x2000 ≤ n && n ≤ 0x200A || n = 0x2028 || n = 0x2029 || n = 0x202F || n = 0x205F || n = 0x3000

abbrev Text := List Char

namespace Text

def trimStartMatches (p : Char → Bool) (s : Text) : Text := s.dropWhile p

def trimEndMatches (p : Char → Bool) (s : Text) : Text := (s.reverse.dropWhile p).reverse

/-- `s.trim()`. -/
def trim (s : Text) : Text := trimEndMatches isWhitespace (trimStartMatches isWhitespace s)

/-- `s.to_ascii_lowercase()`. -/
def toLower (s : Text) : Text := s.map Char.toLower

/-- `c.is_ascii_whitespace()`. -/
def isAsciiSpace (c : Char) : Bool :=
  c = ' ' || c = '\t' || c = '\n' || c = Char.ofNat 0x0C || c = '\r'

/-- `s.split_ascii_whitespace()`. -/
def words (s : Text) : List Text := (s.splitOnP isAsciiSpace).filter (· ≠ [])

/-- `s.strip_prefix(front).and_then(|s| s.strip_suffix(back))`. -/
def between (front : String) (back : Char) (s : Text) : Option Text :=
  if front.toList.isPrefixOf s then
    let inner := s.drop front.toList.length
    if inner.getLast? = some back then some inner.dropLast else none
  else none

def stripPrefix (front : String) (s : Text) : Option Text :=
  if front.toList.isPrefixOf s then some (s.drop front.toList.length) else none

/-- Where `needle` first stands in a text. -/
def find (needle : Text) : Text → Option Nat
  | [] => if needle = [] then some 0 else none
  | c :: s => if needle.isPrefixOf (c :: s) then some 0 else (find needle s).map (· + 1)

/-- `c.to_digit(16)`. -/
def hexDigit (c : Char) : Option Nat :=
  if '0' ≤ c && c ≤ '9' then some (c.toNat - '0'.toNat)
  else if 'a' ≤ c && c ≤ 'f' then some (c.toNat - 'a'.toNat + 10)
  else if 'A' ≤ c && c ≤ 'F' then some (c.toNat - 'A'.toNat + 10)
  else none

/-- `s.parse::<u32>()`. -/
def parseU32 (s : Text) : Option Nat :=
  let digits := match s with
    | '+' :: rest => rest
    | rest => rest
  if digits ≠ [] && digits.all Char.isDigit then
    let n := digits.foldl (fun n c => 10 * n + (c.toNat - '0'.toNat)) 0
    if n < 2 ^ 32 then some n else none
  else none

end Text

/-- `a.eq_ignore_ascii_case(b)`. -/
def eqIgnoreAsciiCase (a b : String) : Bool := Text.toLower a.toList = Text.toLower b.toList

end BarryOS.Lib
