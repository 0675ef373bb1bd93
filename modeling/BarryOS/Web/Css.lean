import BarryOS.Lib.Binary
import BarryOS.Lib.Text
import BarryOS.Web.Dom
import Mathlib.Data.List.Sort

/-!
# Computed styles

The cascade of `apps/web/css.rs`: which declarations apply to an element, in which order,
and what they make of the style it starts with. `compute` goes through the nodes in the
order of the arena and reads the style of the parent from those it has pushed already.

A style sheet is given by its rules. `Fault` says how a computation can end without a
result: an index past the end of a vector, which halts the kernel, or a loop over
ancestors that does not end.
-/

namespace BarryOS.Web

open Lib

/-! ## Floating point (apps/web/js/num.rs) -/

abbrev F32 := Binary binary32

abbrev F64 := Binary binary64

/-- `x as i32`. -/
def asI32 {f : Format} (x : Binary f) : Int := x.cast (-2 ^ 31) (2 ^ 31 - 1)

/-- `x as i64`. -/
def asI64 (x : F64) : Int := x.cast (-2 ^ 63) (2 ^ 63 - 1)

namespace Num

/-- The point past which every `f64` is already an integer. -/
def intLimit : F64 := .ofNat 9007199254740992

/-- One half. -/
def half : F64 := .ofDecimal false 5 (-1)

def abs (x : F64) : F64 := if x.lt .zero then x.neg else x

/-- There is nothing to cut off. -/
def whole (x : F64) : Bool := !x.isFinite || intLimit.le (abs x)

/-- Toward negative infinity. -/
def floor (x : F64) : F64 :=
  if whole x then x
  else
    let t : F64 := .ofInt (asI64 x)
    if x.lt .zero && !t.eq x then t.sub (.ofNat 1) else t

/-- To the nearest integer, with a half going up. -/
def round (x : F64) : F64 := if whole x then x else floor (x.add half)

end Num

namespace Css

/-! ## Styles -/

inductive Fault where
  | outOfRange
  | endless
  deriving DecidableEq, Repr

inductive Display where
  | block | inline | listItem | cell | row | none
  deriving DecidableEq, Repr

inductive Align where
  | left | center | right
  deriving DecidableEq, Repr

structure Rgb where
  r : UInt8
  g : UInt8
  b : UInt8
  deriving DecidableEq, Repr

inductive WhiteSpace where
  | normal | preWrap | pre | noWrap
  deriving DecidableEq, Repr

/-- The style of one element, after the cascade and inheritance. -/
structure Style where
  display : Display
  color : Rgb
  background : Option Rgb
  bold : Bool
  italic : Bool
  underline : Bool
  strike : Bool
  align : Align
  indent : Int
  spaceBefore : Nat
  spaceAfter : Nat
  whiteSpace : WhiteSpace
  marker : Option Char
  scale : Nat
  link : Bool
  deriving DecidableEq, Repr

namespace Style

def initial : Style where
  display := .inline
  color := ⟨0, 0, 0⟩
  background := none
  bold := false
  italic := false
  underline := false
  strike := false
  align := .left
  indent := 0
  spaceBefore := 0
  spaceAfter := 0
  whiteSpace := .normal
  marker := none
  scale := 1
  link := false

end Style

def isBlockTag (tag : String) : Bool :=
  tag ∈ ["html", "body", "address", "article", "aside", "blockquote", "details", "dialog", "div", "dl",
    "dt", "dd", "fieldset", "figcaption", "figure", "footer", "form", "header", "main", "nav", "p", "pre",
    "section", "summary", "ul", "ol", "li", "table", "caption", "h1", "h2", "h3", "h4", "h5", "h6", "hr",
    "center"]

/-- The display an element has before any style sheet. -/
def userAgentDisplay (tag : String) : Display :=
  if tag ∈ ["head", "script", "style", "title", "meta", "link", "base", "template", "iframe", "object",
      "embed", "canvas", "svg", "map", "area", "param", "source", "track", "col", "colgroup"] then .none
  else if tag = "li" then .listItem
  else if tag ∈ ["td", "th"] then .cell
  else if tag ∈ ["tr", "thead", "tbody", "tfoot"] then .row
  else if isBlockTag tag then .block
  else .inline

/-- The browser's own defaults for an element. -/
def Style.userAgent (tag : String) : Style :=
  let s := { initial with display := userAgentDisplay tag }
  let s := if isBlockTag tag && !(tag ∈ ["dl", "dt", "li", "blockquote"]) then
      { s with spaceBefore := 1, spaceAfter := 1 } else s
  match tag with
  | "blockquote" | "dd" => { s with indent := 4 }
  | "h1" | "h2" => { s with bold := true, scale := 2 }
  | "h3" | "h4" | "h5" | "h6" | "b" | "strong" | "th" | "caption" => { s with bold := true }
  | "i" | "em" | "cite" | "dfn" | "var" | "code" | "kbd" | "samp" | "tt" => { s with italic := true }
  | "u" | "ins" => { s with underline := true }
  | "s" | "strike" | "del" => { s with strike := true }
  | "pre" => { s with whiteSpace := .pre }
  | "center" => { s with align := .center }
  | "a" => { s with link := true, underline := true }
  | "li" => { s with marker := some '*' }
  | _ => s

/-! ## Selectors -/

structure Declaration where
  name : String
  value : String
  order : Nat
  deriving DecidableEq, Repr

/-- A compound selector, optionally after a combinator. -/
structure Compound where
  tag : Option String
  id : Option String
  classes : List String
  attrs : List (String × Option String)
  combinator : Char
  deriving DecidableEq, Repr

structure Selector where
  parts : List Compound
  specificity : Nat
  deriving DecidableEq, Repr

structure Rule where
  selectors : List Selector
  decls : List Declaration
  deriving DecidableEq, Repr

structure Stylesheet where
  rules : List Rule
  deriving DecidableEq, Repr

def Compound.matches (c : Compound) (d : Dom) (id : Nat) : Bool :=
  match d.tag id with
  | none => false
  | some tag =>
    c.tag.all (fun want => want = "*" || eqIgnoreAsciiCase tag want) &&
    c.id.all (fun want => d.attr id "id" = some want) &&
    c.classes.all (fun want =>
      want.toList ∈ Text.words ((d.attr id "class").getD "").toList) &&
    c.attrs.all fun want =>
      match d.attr id want.1 with
      | none => false
      | some value => want.2.all (value = ·)

/-- The loop over the ancestors: the nearest one, from `up` on, with the property. -/
def nearestAncestor (d : Dom) (p : Nat → Bool) : Nat → Option Nat → Except Fault (Option Nat)
  | 0, _ => .error .endless
  | _ + 1, none => .ok none
  | fuel + 1, some u => if p u then .ok (some u) else nearestAncestor d p fuel (d.parent u)

/-- The loop of `Selector::matches`, on the parts from the last one on. -/
def matchesFrom (d : Dom) : List Compound → Option Nat → Except Fault Bool
  | [], _ => .ok true
  | _ :: _, none => .ok false
  | part :: rest, some n =>
    if part.matches d n then
      match rest with
      | [] => .ok true
      | next :: _ =>
        if part.combinator = '>' then matchesFrom d rest (d.parent n)
        else do
          match ← nearestAncestor d (next.matches d) (d.nodes.length + 1) (d.parent n) with
          | none => .ok false
          | some u => matchesFrom d rest (some u)
    else .ok false

def Selector.matches (s : Selector) (d : Dom) (id : Nat) : Except Fault Bool :=
  matchesFrom d s.parts.reverse (some id)

end Css

end BarryOS.Web
