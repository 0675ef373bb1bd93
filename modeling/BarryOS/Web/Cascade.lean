import BarryOS.Web.Css

/-!
# The cascade

Values of declarations, the declarations that apply to an element, and the pass over the
document (`length_cells`, `parse_colour`, `apply`, `element_style` and `compute` of
`apps/web/css.rs`).
-/

namespace BarryOS.Web.Css

open Lib Text

/-! ## Values -/

/-- The characters that can stand in a number. -/
def isNumberChar (c : Char) : Bool := c.isDigit || c = '.' || c = '-' || c = '+'

/-- A number and the unit behind it; what looks like a number behind the unit is dropped. -/
def splitNumber (v : Text) : Option (F32 × Text) :=
  (Binary.parse (v.takeWhile isNumberChar)).map fun n =>
    (n, toLower (trim (v.filter fun c => !isNumberChar c)))

/-- What one of a unit is in character cells. -/
def cellsPerUnit (unit : String) (horizontal : Bool) : Option F32 :=
  let cell : F32 := .ofNat (if horizontal then 8 else 16)
  match unit with
  | "px" => some ((Binary.ofNat 1).div cell)
  | "pt" => some (((Binary.ofNat 96).div (.ofNat 72)).div cell)
  | "em" | "rem" => some (.ofNat (if horizontal then 2 else 1))
  | "ex" | "ch" => some (.ofNat 1)
  | _ => none

/-- A length in character cells. -/
def lengthCells (value : Text) (horizontal : Bool) : Option Int := do
  let (number, unit) ← splitNumber (trim value)
  let perUnit ← cellsPerUnit (String.ofList unit) horizontal
  return asI32 (Num.round (number.mul perUnit).convert)

def namedColour : String → Option Rgb
  | "black" => some ⟨0, 0, 0⟩
  | "white" => some ⟨255, 255, 255⟩
  | "red" => some ⟨255, 0, 0⟩
  | "lime" => some ⟨0, 255, 0⟩
  | "green" => some ⟨0, 128, 0⟩
  | "blue" => some ⟨0, 0, 255⟩
  | "yellow" => some ⟨255, 255, 0⟩
  | "cyan" | "aqua" => some ⟨0, 255, 255⟩
  | "magenta" | "fuchsia" => some ⟨255, 0, 255⟩
  | "silver" => some ⟨192, 192, 192⟩
  | "gray" | "grey" => some ⟨128, 128, 128⟩
  | "maroon" => some ⟨128, 0, 0⟩
  | "olive" => some ⟨128, 128, 0⟩
  | "purple" => some ⟨128, 0, 128⟩
  | "teal" => some ⟨0, 128, 128⟩
  | "navy" => some ⟨0, 0, 128⟩
  | "orange" => some ⟨255, 165, 0⟩
  | "brown" => some ⟨165, 42, 42⟩
  | "pink" => some ⟨255, 192, 203⟩
  | "gold" => some ⟨255, 215, 0⟩
  | "darkgray" | "darkgrey" => some ⟨169, 169, 169⟩
  | "lightgray" | "lightgrey" => some ⟨211, 211, 211⟩
  | "darkblue" => some ⟨0, 0, 139⟩
  | "darkred" => some ⟨139, 0, 0⟩
  | "darkgreen" => some ⟨0, 100, 0⟩
  | "lightblue" => some ⟨173, 216, 230⟩
  | "lightgreen" => some ⟨144, 238, 144⟩
  | "whitesmoke" => some ⟨245, 245, 245⟩
  | "beige" => some ⟨245, 245, 220⟩
  | "ivory" => some ⟨255, 255, 240⟩
  | "crimson" => some ⟨220, 20, 60⟩
  | "tomato" => some ⟨255, 99, 71⟩
  | "salmon" => some ⟨250, 128, 114⟩
  | "khaki" => some ⟨240, 230, 140⟩
  | "indigo" => some ⟨75, 0, 130⟩
  | "violet" => some ⟨238, 130, 238⟩
  | _ => none

/-- `(c as char).to_digit(16)` of a byte. -/
def hexChar (b : UInt8) : Option Nat := hexDigit (Char.ofNat b.toNat)

/-- One hexadecimal digit for both halves of a byte. -/
def expand (b : UInt8) : UInt8 := UInt8.ofNat ((hexChar b).getD 0 * 17)

def hexByte (high low : UInt8) : Option UInt8 := do
  return UInt8.ofNat ((← hexChar high) * 16 + (← hexChar low))

def hexColour : Bytes → Option Rgb
  | [r, g, b] | [r, g, b, _] => some ⟨expand r, expand g, expand b⟩
  | [r, r', g, g', b, b'] | [r, r', g, g', b, b', _, _] => do
    return ⟨← hexByte r r', ← hexByte g g', ← hexByte b b'⟩
  | _ => none

/-- One part of `rgb()`: a number, or a percentage taken as one. -/
def component (part : Text) : Option Int :=
  (Binary.parse (trimEndMatches (· = '%') (trim part)) : Option F32).map fun x =>
    asI32 (Num.round x.convert)

def toByte (i : Int) : UInt8 := UInt8.ofNat (max 0 (min 255 i)).toNat

/-- What stands between the brackets of `rgb()`. -/
def rgbOf (inner : Text) : Option Rgb :=
  match (inner.splitOn ',').filterMap component with
  | [r, g, b] => some ⟨toByte r, toByte g, toByte b⟩
  | _ => none

/-- The alpha at which a colour is taken to be invisible, and the opacity. -/
def faint : F32 := .ofDecimal false 5 (-2)

/-- What stands between the brackets of `rgba()`. The source indexes the first three parts whatever
their number; what it makes of them is the text of an `rgb()`, and it parses that. -/
def rgbaOf (inner : Text) : Except Fault (Option Rgb) :=
  let parts := (inner.splitOn ',').map trim
  let alpha : F32 := ((parts[3]?).bind Binary.parse).getD .zero
  if parts.length = 4 && alpha.le faint then .ok none
  else
    match parts with
    | r :: g :: b :: _ => .ok (rgbOf (r ++ ", ".toList ++ g ++ ", ".toList ++ b))
    | _ => .error .outOfRange

def parseColour (value : Text) : Except Fault (Option Rgb) :=
  let v := toLower (trim value)
  match v with
  | '#' :: hex => .ok (hexColour (encodeUtf8 hex))
  | _ =>
    match (between "rgb(" ')' v).bind rgbOf with
    | some c => .ok (some c)
    | none =>
      match between "rgba(" ')' v with
      | some inner => rgbaOf inner
      | none => .ok (namedColour (String.ofList v))

/-! ## Declarations -/

/-- The state of `split_declarations`: the pieces, the current one, the depth of the brackets and the
quote of the string it is in. -/
structure Splitting where
  out : List Text
  current : Text
  depth : Int
  inString : Option Char

def Splitting.next (s : Splitting) (c : Char) : Splitting :=
  let pushed := { s with current := s.current ++ [c] }
  match s.inString with
  | some q => if c = q then { pushed with inString := none } else pushed
  | none =>
    if c = Char.ofNat 0x22 || c = Char.ofNat 0x27 then { pushed with inString := some c }
    else if c = '(' then { pushed with depth := s.depth + 1 }
    else if c = ')' then { pushed with depth := s.depth - 1 }
    else if c = ';' && s.depth = 0 then { s with out := s.out ++ [s.current], current := [] }
    else pushed

/-- Split a declaration block on semicolons, but not on those inside brackets or strings. -/
def splitDeclarations (body : Text) : List Text :=
  let s := body.foldl Splitting.next ⟨[], [], 0, none⟩
  if trim s.current = [] then s.out else s.out ++ [s.current]

/-- The name and the value of a piece, if it has both. -/
def nameAndValue (piece : Text) : Option (String × String) :=
  if ':' ∈ piece then
    let name := toLower (trim (piece.takeWhile (· ≠ ':')))
    let value := trim ((piece.dropWhile (· ≠ ':')).drop 1)
    if name = [] || value = [] then none else some (String.ofList name, String.ofList value)
  else none

/-- The declarations of a `style` attribute. -/
def inlineDeclarations (text : String) : List (String × String) :=
  (splitDeclarations text.toList).filterMap nameAndValue

def displayOf (lower : String) : Display :=
  match lower with
  | "none" => .none
  | "list-item" => .listItem
  | "block" | "flex" | "grid" | "table" => .block
  | "table-row" => .row
  | "table-cell" => .cell
  | _ => .inline

def decorate (s : Style) (part : Text) : Style :=
  match String.ofList part with
  | "underline" => { s with underline := true }
  | "line-through" => { s with strike := true }
  | "none" => { s with underline := false, strike := false }
  | _ => s

def markerOf (part : Text) : Option Char :=
  match String.ofList part with
  | "none" => some ' '
  | "disc" | "circle" => some '*'
  | "square" => some '#'
  | "decimal" => some '1'
  | "lower-alpha" => some 'a'
  | "upper-alpha" => some 'A'
  | "lower-roman" => some 'i'
  | "upper-roman" => some 'I'
  | _ => none

/-- Blank lines for a length. -/
def blankLines (n : Int) : Nat := (max 0 (min 4 n)).toNat

/-- `s.indent += n`, in 32 bits. -/
def Style.indentBy (s : Style) (n : Option Int) : Style :=
  match n with
  | some n => { s with indent := (s.indent + n).bmod (2 ^ 32) }
  | none => s

def Style.spaced (s : Style) (before after : Option Int) : Style :=
  { s with
    spaceBefore := max s.spaceBefore ((before.map blankLines).getD 0)
    spaceAfter := max s.spaceAfter ((after.map blankLines).getD 0) }

/-- A declaration of anything but a colour. -/
def applyOther (s : Style) (name : String) (v : Text) : Style :=
  let lower := toLower v
  let word := String.ofList lower
  match name with
  | "display" => { s with display := displayOf word }
  | "font-weight" =>
    { s with bold :=
        if word ∈ ["normal", "400", "300", "200", "100"] then false
        else if word ∈ ["bold", "bolder"] then true
        else ((parseU32 lower).map fun n => decide (600 ≤ n)).getD s.bold }
  | "font-style" => { s with italic := word ∈ ["italic", "oblique"] }
  | "text-decoration" | "text-decoration-line" => (words lower).foldl decorate s
  | "text-align" =>
    { s with align :=
        if word = "center" then .center else if word ∈ ["right", "end"] then .right else .left }
  | "white-space" =>
    { s with whiteSpace :=
        match word with
        | "pre" => .pre
        | "pre-wrap" | "pre-line" => .preWrap
        | "nowrap" => .noWrap
        | _ => .normal }
  | "margin-left" | "padding-left" | "border-left-width" => s.indentBy (lengthCells v true)
  | "margin-top" | "padding-top" => s.spaced (lengthCells v false) none
  | "margin-bottom" | "padding-bottom" => s.spaced none (lengthCells v false)
  | "margin" | "padding" =>
    let parts := words v
    let top := parts.head?.getD "0".toList
    let left := ((parts[3]?).or parts[1]?).getD top
    (s.spaced (lengthCells top false) (lengthCells top false)).indentBy (lengthCells left true)
  | "list-style" | "list-style-type" =>
    (words lower).foldl (fun s part => { s with marker := (markerOf part).or s.marker }) s
  | "visibility" => if word ∈ ["hidden", "collapse"] then { s with scale := 0 } else s
  | "font-size" =>
    let big :=
      if word ∈ ["xx-small", "x-small", "small"] then false
      else if word ∈ ["large", "x-large", "xx-large"] then true
      else ((lengthCells v false).map fun n => decide (2 ≤ n)).getD false
    { s with scale := if big then 2 else max s.scale 1 }
  | "opacity" =>
    if ((Binary.parse lower : Option F32).map fun x => x.le faint).getD false then { s with scale := 0 }
    else s
  | "height" | "max-height" => if word ∈ ["0", "0px"] then { s with scale := 0 } else s
  | _ => s

/-- What one declaration makes of a style. -/
def apply (s : Style) (name value : String) : Except Fault Style :=
  let v := trim value.toList
  match name with
  | "color" => return { s with color := (← parseColour v).getD s.color }
  | "background" | "background-color" => return { s with background := ← parseColour v }
  | _ => .ok (applyOther s name v)

/-! ## The pass -/

/-- One matched declaration, with everything needed to order it. -/
structure Candidate where
  specificity : Nat
  order : Nat
  inline : Bool
  name : String
  value : String

/-- The order of `(inline, specificity, order)`. -/
def Candidate.le (a b : Candidate) : Bool :=
  if a.inline ≠ b.inline then b.inline
  else if a.specificity ≠ b.specificity then a.specificity < b.specificity
  else a.order ≤ b.order

/-- The first selector of a rule that matches. -/
def firstMatch (d : Dom) (id : Nat) : List Selector → Except Fault (Option Selector)
  | [] => .ok none
  | sel :: rest => do
    if ← sel.matches d id then return some sel
    firstMatch d id rest

/-- The declarations of one rule for an element. -/
def ruleCandidates (d : Dom) (id : Nat) (rule : Rule) : Except Fault (List Candidate) := do
  match ← firstMatch d id rule.selectors with
  | none => return []
  | some sel => return rule.decls.map fun decl => ⟨sel.specificity, decl.order, false, decl.name, decl.value⟩

def inlineCandidates (d : Dom) (id : Nat) : List Candidate :=
  match d.attr id "style" with
  | none => []
  | some text => (inlineDeclarations text).map fun nv => ⟨0, 2 ^ 32 - 1, true, nv.1, nv.2⟩

/-- The style before any declaration: what is inherited, and the browser's defaults. -/
def baseStyle (tag : String) (parent : Style) : Style :=
  let ua := Style.userAgent tag
  { Style.initial with
    color := parent.color
    bold := parent.bold || ua.bold
    italic := parent.italic || ua.italic
    underline := parent.underline || ua.underline
    strike := parent.strike || ua.strike
    align := if ua.align ≠ .left then ua.align else parent.align
    whiteSpace := if ua.whiteSpace ≠ parent.whiteSpace then ua.whiteSpace else parent.whiteSpace
    scale := if parent.scale < ua.scale then ua.scale else parent.scale
    link := eqIgnoreAsciiCase tag "a"
    display := ua.display
    indent := ua.indent
    spaceBefore := ua.spaceBefore
    spaceAfter := ua.spaceAfter
    marker := ua.marker }

def elementStyle (d : Dom) (sheet : Stylesheet) (id : Nat) (tag : String) (parent : Style) :
    Except Fault Style := do
  let matched ← sheet.rules.mapM (ruleCandidates d id)
  let candidates := (matched.flatten ++ inlineCandidates d id).insertionSort (Candidate.le · ·)
  candidates.foldlM (fun s c => apply s c.name c.value) (baseStyle tag parent)

/-- The style of a node, given that of its parent. -/
def nodeStyle (d : Dom) (sheet : Stylesheet) (id : Nat) (parent : Style) : Except Fault Style :=
  match d.kind id with
  | some (.element tag _) => elementStyle d sheet id tag parent
  | some (.text _) => .ok parent
  | _ => .ok { parent with display := .none }

/-- `out[p]` for the parent of a node, or the initial style. -/
def parentStyle (d : Dom) (out : List Style) (id : Nat) : Except Fault Style :=
  match d.parent id with
  | none => .ok .initial
  | some p =>
    match out[p]? with
    | some style => .ok style
    | none => .error .outOfRange

/-- Compute a style for every node in the document. -/
def compute (d : Dom) (sheet : Stylesheet) : Except Fault (List Style) :=
  (List.range d.nodes.length).foldlM (fun out id => do
      let parent ← parentStyle d out id
      return out ++ [← nodeStyle d sheet id parent]) []

end BarryOS.Web.Css
