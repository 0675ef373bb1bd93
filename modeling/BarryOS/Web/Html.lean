import BarryOS.Web.Dom
import BarryOS.Web.Entities

/-!
# The HTML parser

`Parser` of `apps/web/dom.rs`: bytes in, a document tree out. `rest` is `src[at..]`,
what the parser has not read yet; `stack` holds the open elements, outermost first. Where the
source adds to `at` without a look at the end of the input, the step is an `advance` over bytes
that have been seen.

The loops are `whileSome` over one round each. Every round uses up input
(`parseStep_shrinks`), so the parser reads all of it (`parse_done`).
-/

namespace BarryOS.Web

open Lib List

/-! ## Element names -/

/-- Elements with no content and no end tag. -/
def voidElements : List String :=
  ["area", "base", "br", "col", "embed", "hr", "img", "input", "link", "meta", "param", "source", "track", "wbr"]

/-- Elements whose contents are text, not markup. -/
def rawText : List String := ["script", "style", "textarea", "title"]

/-- Which elements a start tag closes, when it is still open. -/
def closesWhat : String → List String
  | "p" => ["p"]
  | "li" => ["li"]
  | "dt" | "dd" => ["dt", "dd"]
  | "td" | "th" => ["td", "th"]
  | "tr" => ["td", "th", "tr"]
  | "option" => ["option"]
  | "optgroup" => ["option", "optgroup"]
  | "h1" | "h2" | "h3" | "h4" | "h5" | "h6" => ["p"]
  | "tbody" | "tfoot" => ["td", "th", "tr", "thead", "tbody"]
  | _ => []

def isHeadContent (name : String) : Bool :=
  name ∈ ["title", "meta", "link", "style", "base", "script", "noscript", "template"]

def impliedEndFor (name opened : String) : Bool :=
  opened = "p" && name ∈ ["div", "table", "ul", "ol", "blockquote", "pre", "form", "hr", "h1", "h2",
    "h3", "h4", "h5", "h6", "section", "article", "aside", "nav", "header", "footer", "address",
    "figure"]

/-! ## Reading bytes -/

def startsWith (rest : Bytes) (s : String) : Bool := (bytesOf s).isPrefixOf rest

theorem startsWith_length {rest : Bytes} {s : String} (seen : startsWith rest s = true) :
    (bytesOf s).length ≤ rest.length :=
  IsPrefix.length_le <| isPrefixOf_iff_prefix.mp seen

def startsWithCi (rest : Bytes) (want : String) : Bool :=
  (rest.take (bytesOf want).length).map toAsciiLowercase = bytesOf want

/-- The loop of `skip_comment`, behind the opening. -/
def skipPast : Bytes → Bytes
  | [] => []
  | b :: rest =>
    if seen : startsWith (b :: rest) "-->" then advance (b :: rest) 3 (startsWith_length seen) else skipPast rest

/-- `self.at = (self.at + 1).min(self.src.len())`, at the `>` or at the end. -/
def skipToGt (rest : Bytes) : Bytes := (rest.dropWhile (· ≠ ascii '>')).drop 1

def skipWhitespace (rest : Bytes) : Bytes := rest.dropWhile isAsciiWhitespace

def isNameByte (c : UInt8) : Bool :=
  isAsciiAlphanumeric c || c = ascii '-' || c = ascii '_' || c = ascii ':'

def readName (rest : Bytes) : String × Bytes :=
  (lossyLower (rest.takeWhile isNameByte), rest.dropWhile isNameByte)

/-- Returns whether the tag closed itself. -/
def takeSelfClosing (rest : Bytes) : Bool × Bytes :=
  let spaced := skipWhitespace rest
  if seen : startsWith spaced "/>" then (true, advance spaced 2 (startsWith_length seen))
  else if seen : startsWith spaced ">" then (false, advance spaced 1 (startsWith_length seen))
  else (false, skipToGt rest)

def isAttributeNameByte (c : UInt8) : Bool :=
  !(isAsciiWhitespace c || c = ascii '=' || c = ascii '>' || c = ascii '/')

/-- The value of an attribute, behind its name. -/
def readValue (rest : Bytes) : String × Bytes :=
  match skipWhitespace rest with
  | [] => ("", rest)
  | b :: behind =>
    if b = ascii '=' then
      match skipWhitespace behind with
      | [] => (decodeEntities [], [])
      | quote :: value =>
        if quote = 0x22 || quote = 0x27 then
          (decodeEntities (value.takeWhile (· ≠ quote)), (value.dropWhile (· ≠ quote)).drop 1)
        else
          let inValue := fun c => !(isAsciiWhitespace c || c = ascii '>')
          (decodeEntities ((quote :: value).takeWhile inValue), (quote :: value).dropWhile inValue)
    else ("", rest)

/-- One round of `read_attributes`. -/
def attributeStep (s : Bytes × List (String × String)) : Option (Bytes × List (String × String)) :=
  match skipWhitespace s.1 with
  | [] => none
  | b :: rest =>
    if b = ascii '>' || startsWith (b :: rest) "/>" then none
    else if !isAttributeNameByte b then some (rest, s.2)
    else
      let name := lossyLower ((b :: rest).takeWhile isAttributeNameByte)
      let value := readValue ((b :: rest).dropWhile isAttributeNameByte)
      some (value.2, if s.2.any (·.1 = name) then s.2 else s.2 ++ [(name, value.1)])

def readAttributes (rest : Bytes) : List (String × String) × Bytes :=
  let s := whileSome (fun s => s.1.length) attributeStep (rest, [])
  (s.2, skipWhitespace s.1)

/-- Where the end tag `close` starts, or the tail that is too short for it. -/
def findClose (close : Bytes) : Bytes → Bytes
  | [] => []
  | b :: rest =>
    if (b :: rest).length < close.length then b :: rest
    else if ((b :: rest).take close.length).map toAsciiLowercase = close.map toAsciiLowercase then
      b :: rest
    else findClose close rest

/-- Everything up to the matching end tag, verbatim. -/
def readRawText (rest : Bytes) (name : String) : String × Bytes :=
  let tail := findClose (bytesOf ("</" ++ name)) rest
  (lossy (rest.take (rest.length - tail.length)), skipToGt tail)

/-! ## The parser -/

structure Parser where
  rest : Bytes
  dom : Dom
  stack : List Nat
  head : Nat
  body : Nat

namespace Parser

/-- The skeleton every document has, whether or not it says so. -/
def new (src : Bytes) : Parser :=
  let dom : Dom := { nodes := [⟨.document, none, []⟩], root := 0 }
  let (dom, html) := dom.pushUnder 0 (.element "html" [])
  let (dom, head) := dom.pushUnder html (.element "head" [])
  let (dom, body) := dom.pushUnder html (.element "body" [])
  { rest := src, dom, stack := [html, head], head, body }

def inHead (p : Parser) : Bool := p.stack.getLast? = some p.head

/-- The open elements around `<head>`. -/
def outsideHead (p : Parser) : List Nat :=
  match p.stack.findIdx? (· = p.head) with
  | some pos => p.stack.take pos
  | none => p.stack

/-- Leave `<head>` for `<body>`. -/
def enterBody (p : Parser) : Parser :=
  { p with stack := if p.body ∈ p.outsideHead then p.outsideHead else p.outsideHead ++ [p.body] }

/-- The insertion point. -/
def top (p : Parser) : Nat := p.stack.getLast?.getD 0

def push (p : Parser) (kind : Kind) : Parser × Nat :=
  let (dom, id) := p.dom.pushUnder p.top kind
  ({ p with dom }, id)

def currentTag (p : Parser) : Option String := p.stack.getLast?.bind p.dom.tag

/-- Close the nearest open element with this name, or nothing if it is not open. -/
def closeElement (p : Parser) (name : String) : Parser :=
  if name = "head" then p.enterBody
  else if name = "body" || name = "html" then { p with stack := p.stack.take 1 }
  else
    match p.stack.reverse.findIdx? fun id => p.dom.tag id = some name with
    | none => p
    | some back => { p with stack := p.stack.take (p.stack.length - 1 - back) }

def closeTags (p : Parser) (names : List String) : Parser :=
  whileSome (fun p => p.stack.length) (fun p =>
      match p.currentTag with
      | none => none
      | some opened => if opened ∈ names then some { p with stack := p.stack.dropLast } else none) p

/-- Adjacent text becomes one node. -/
def appendText (p : Parser) (s : String) : Parser :=
  match (p.dom.children p.top).getLast? with
  | none => (p.push (.text s)).1
  | some last =>
    match p.dom.kind last with
    | some (.text t) => { p with dom := p.dom.modify last fun n => { n with kind := .text (t ++ s) } }
    | _ => (p.push (.text s)).1

/-- Text that is not whitespace ends the head. -/
def text (p : Parser) (s : String) : Parser :=
  if s = "" then p else (if p.inHead && !trimsToEmpty s then p.enterBody else p).appendText s

def closeImplied (p : Parser) (name : String) : Parser :=
  match p.currentTag with
  | some opened => if impliedEndFor name opened then { p with stack := p.stack.dropLast } else p
  | none => p

def openElement (p : Parser) (name : String) (attrs : List (String × String)) (selfClosing : Bool) :
    Parser :=
  let (p, id) := p.push (.element name attrs)
  if !selfClosing && name ∉ voidElements then { p with stack := p.stack ++ [id] } else p

/-- Put an element where it belongs, applying the close rules first. -/
def insert (p : Parser) (name : String) (attrs : List (String × String)) (selfClosing : Bool) : Parser :=
  if name = "html" then { p with stack := p.stack.take 1 }
  else if name = "head" then { p with stack := p.stack.take 1 ++ [p.head] }
  else if name = "body" then { p with stack := p.stack.take 1 ++ [p.body] }
  else
    let p := if p.inHead && !isHeadContent name then p.enterBody else p
    ((p.closeTags (closesWhat name)).closeImplied name).openElement name attrs selfClosing

/-- The end tag of a raw text element was read with its contents. -/
def closeRaw (p : Parser) (name : String) : Parser :=
  if p.currentTag = some name then { p with stack := p.stack.dropLast } else p

/-- At a `<` that opens neither a comment, a declaration nor an end tag. -/
def startTag (p : Parser) (here : 1 ≤ p.rest.length) : Parser :=
  let (name, rest) := readName (advance p.rest 1 here)
  if name = "" then { p with rest := advance p.rest 1 here }.text "<"
  else
    let (attrs, rest) := readAttributes rest
    let (selfClosing, rest) := takeSelfClosing rest
    if name ∈ rawText then
      let (content, rest) := readRawText rest name
      let p := { p with rest }.insert name attrs false
      let content :=
        if name = "title" || name = "textarea" then decodeEntities (bytesOf content) else content
      (p.text content).closeRaw name
    else { p with rest }.insert name attrs selfClosing

/-- At a `</`. -/
def endTag (p : Parser) (seen : startsWith p.rest "</" = true) : Parser :=
  let (name, rest) := readName (advance p.rest 2 (startsWith_length seen))
  let p := { p with rest := skipToGt rest }
  if name = "" then p else p.closeElement name

/-- One round of the loop of `parse`. -/
def parseStep (p : Parser) : Option Parser :=
  match input : p.rest with
  | [] => none
  | c :: _ =>
    some <|
      if c ≠ ascii '<' then
        { p with rest := p.rest.dropWhile (· ≠ ascii '<') }.text (decodeEntities (p.rest.takeWhile (· ≠ ascii '<')))
      else if seen : startsWith p.rest "<!--" then
        { p with rest := skipPast (advance p.rest 4 (startsWith_length seen)) }
      else if startsWithCi p.rest "<!doctype" then { p with rest := skipToGt p.rest }
      else if startsWith p.rest "<!" then { p with rest := skipToGt p.rest }
      else if seen : startsWith p.rest "</" then p.endTag seen
      else if startsWith p.rest "<?" then { p with rest := skipToGt p.rest }
      else p.startTag (by rw [input]; exact Nat.le_add_left 1 _)

def parse (p : Parser) : Parser := whileSome (fun p => p.rest.length) parseStep p

end Parser

/-- `Dom::parse`. -/
def Dom.parse (html : Bytes) : Dom := (Parser.new html).parse.dom

/-! ## All input is read -/

variable (l : Bytes)

theorem skipWhitespace_suffix : skipWhitespace l <:+ l := dropWhile_suffix _

theorem skipToGt_suffix : skipToGt l <:+ l := (drop_suffix 1 _).trans (dropWhile_suffix _)

theorem skipPast_suffix : skipPast l <:+ l := by
  induction l with
  | nil => exact suffix_rfl
  | cons b rest ih =>
    unfold skipPast
    split
    · exact drop_suffix 3 (b :: rest)
    · exact ih.trans (suffix_cons b rest)

theorem findClose_suffix (close l : Bytes) : findClose close l <:+ l := by
  induction l with
  | nil => exact suffix_rfl
  | cons b rest ih =>
    unfold findClose
    split
    · exact suffix_rfl
    split
    · exact suffix_rfl
    · exact ih.trans (suffix_cons b rest)

theorem readRawText_suffix (name : String) : (readRawText l name).2 <:+ l :=
  (skipToGt_suffix _).trans (findClose_suffix _ l)

theorem takeSelfClosing_suffix : (takeSelfClosing l).2 <:+ l := by
  unfold takeSelfClosing
  dsimp only
  split
  · exact (drop_suffix 2 _).trans (skipWhitespace_suffix l)
  split
  · exact (drop_suffix 1 _).trans (skipWhitespace_suffix l)
  · exact skipToGt_suffix l

theorem readValue_suffix : (readValue l).2 <:+ l := by
  unfold readValue
  split
  · exact suffix_rfl
  rename_i b behind cut
  have behind_suffix : behind <:+ l := (suffix_cons b behind).trans (cut ▸ skipWhitespace_suffix l)
  split
  · split
    · exact nil_suffix
    rename_i quote value cut'
    have value_suffix := (cut' ▸ skipWhitespace_suffix behind).trans behind_suffix
    split
    · exact ((drop_suffix 1 _).trans ((dropWhile_suffix _).trans (suffix_cons quote value))).trans value_suffix
    · exact (dropWhile_suffix _).trans value_suffix
  · exact suffix_rfl

theorem attributeStep_reads (s next : Bytes × List (String × String))
    (h : attributeStep s = some next) : next.1 <:+ s.1 ∧ next.1.length < s.1.length := by
  have spaced := skipWhitespace_suffix s.1
  unfold attributeStep at h
  split at h
  · cases h
  rename_i b rest cut
  rw [cut] at spaced
  have shorter := spaced.length_le
  rw [length_cons] at shorter
  split at h
  · cases h
  split at h
  · cases h
    exact ⟨(suffix_cons b rest).trans spaced, shorter⟩
  rename_i nameByte
  obtain rfl := Option.some.inj h
  have named := length_dropWhile_cons_lt isAttributeNameByte rest (by simpa using nameByte)
  have value := readValue_suffix ((b :: rest).dropWhile isAttributeNameByte)
  refine ⟨(value.trans (dropWhile_suffix _)).trans spaced, ?_⟩
  have := value.length_le
  rw [length_cons] at named
  dsimp only
  omega

theorem readAttributes_suffix : (readAttributes l).2 <:+ l :=
  (skipWhitespace_suffix _).trans (whileSome_invariant (fun s => s.1 <:+ l)
    (fun s next before h => (attributeStep_reads s next h).1.trans before) suffix_rfl)

theorem tagEnd_suffix : (takeSelfClosing (readAttributes (l.dropWhile isNameByte)).2).2 <:+ l :=
  ((takeSelfClosing_suffix _).trans (readAttributes_suffix _)).trans (dropWhile_suffix _)

namespace Parser

variable (p : Parser)

@[simp] theorem enterBody_rest : p.enterBody.rest = p.rest := rfl

@[simp] theorem push_rest (kind : Kind) : (p.push kind).1.rest = p.rest := rfl

@[simp] theorem closeTags_rest (names : List String) : (p.closeTags names).rest = p.rest := by
  refine whileSome_invariant (fun q : Parser => q.rest = p.rest) ?_ rfl
  intro q next same step
  split at step
  · cases step
  split at step
  · cases step
    exact same
  · cases step

variable (name : String)

@[simp] theorem closeElement_rest : (p.closeElement name).rest = p.rest := by
  unfold closeElement
  repeat' split
  all_goals rfl

@[simp] theorem appendText_rest (s : String) : (p.appendText s).rest = p.rest := by
  unfold appendText
  repeat' split
  all_goals rfl

@[simp] theorem text_rest (s : String) : (p.text s).rest = p.rest := by
  unfold text
  repeat' split
  all_goals simp

@[simp] theorem closeImplied_rest : (p.closeImplied name).rest = p.rest := by
  unfold closeImplied
  repeat' split
  all_goals rfl

variable (attrs : List (String × String)) (selfClosing : Bool)

@[simp] theorem openElement_rest : (p.openElement name attrs selfClosing).rest = p.rest := by
  unfold openElement
  dsimp only
  split <;> rfl

@[simp] theorem insert_rest : (p.insert name attrs selfClosing).rest = p.rest := by
  unfold insert
  repeat' split
  all_goals simp

@[simp] theorem closeRaw_rest : (p.closeRaw name).rest = p.rest := by
  unfold closeRaw
  split <;> rfl

theorem startTag_suffix (here : 1 ≤ p.rest.length) : (p.startTag here).rest <:+ p.rest.drop 1 := by
  unfold startTag
  dsimp only [readName]
  split
  · exact ⟨[], text_rest _ _⟩
  split
  · rw [closeRaw_rest, text_rest, insert_rest]
    exact (readRawText_suffix _ _).trans (tagEnd_suffix _)
  · rw [insert_rest]
    exact tagEnd_suffix _

theorem endTag_suffix (seen : startsWith p.rest "</" = true) : (p.endTag seen).rest <:+ p.rest.drop 2 := by
  have behind := (skipToGt_suffix _).trans (dropWhile_suffix isNameByte (l := p.rest.drop 2))
  unfold endTag
  dsimp only [readName]
  split
  · exact behind
  · rw [closeElement_rest]
    exact behind

/-- Every round of the parser uses up input. -/
theorem parseStep_shrinks (p next : Parser) (h : p.parseStep = some next) : next.rest.length < p.rest.length := by
  unfold parseStep at h
  split at h
  · cases h
  rename_i c rest input
  obtain rfl := Option.some.inj h
  have toGt : c = ascii '<' → (skipToGt p.rest).length < p.rest.length := by
    intro opens
    have := length_dropWhile_cons_lt (· ≠ ascii '>') rest (b := c) (by rw [opens]; decide)
    rw [input, skipToGt, length_drop]
    omega
  have start : (p.rest.drop 1).length < p.rest.length := by
    rw [input]
    simp
  split
  next other =>
    rw [text_rest]
    rw [input]
    exact length_dropWhile_cons_lt (· ≠ ascii '<') rest (decide_eq_true other)
  next opens =>
    have opens : c = ascii '<' := by simpa using opens
    split
    · have past := (skipPast_suffix (p.rest.drop 4)).length_le
      rw [length_drop] at past
      dsimp only [advance]
      omega
    split
    · exact toGt opens
    split
    · exact toGt opens
    split
    next seen =>
      have := (p.endTag_suffix seen).length_le
      rw [length_drop] at this start
      omega
    split
    · exact toGt opens
    have := (p.startTag_suffix (by rw [input]; exact Nat.le_add_left 1 _)).length_le
    omega

/-- The parser stops at the end of the input and not before. -/
theorem parse_done : p.parse.rest = [] := by
  have stops : p.parse.parseStep = none := whileSome_stops parseStep_shrinks p
  unfold parseStep at stops
  split at stops
  · assumption
  · cases stops

end Parser

end BarryOS.Web
