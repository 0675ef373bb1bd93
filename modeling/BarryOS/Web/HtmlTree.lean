import BarryOS.Web.DomMutate
import BarryOS.Web.Html

/-!
# What holds of a parsed document

The parser pushes nodes under the open elements and lengthens texts. `Reached` has every state
it passes through on the way, those within a round as well, and every index it uses is that of a
node (`Sound`). So whatever survives these two changes (`ParserKeeps`) and holds of the document
it starts with holds of every parsed one (`Dom.parse_keeps`); that it is a forest is such a
property.
-/

namespace BarryOS.Web

open Lib Dom List

/-- The property survives a push under a node, and a change that leaves the links alone. -/
structure ParserKeeps (P : Dom → Prop) : Prop where
  push : ∀ {d : Dom} {p : Nat} (kind : Kind), P d → p < d.nodes.length → P (d.pushUnder p kind).1
  relabel : ∀ {d : Dom} (id : Nat) {f : NodeData → NodeData},
    (∀ n, (f n).parent = n.parent ∧ (f n).children = n.children) → P d → P (d.modify id f)

variable {stack : List Nat}

namespace Parser

/-- The tree so far has the property, and every open element is one of its nodes. -/
structure Sound (P : Dom → Prop) (p : Parser) : Prop where
  kept : P p.dom
  nonempty : 0 < p.dom.nodes.length
  stack : ∀ id ∈ p.stack, id < p.dom.nodes.length
  head : p.head < p.dom.nodes.length
  body : p.body < p.dom.nodes.length

variable {P : Dom → Prop} {p : Parser}

theorem Sound.reread (h : p.Sound P) (rest : Bytes) : { p with rest }.Sound P :=
  ⟨h.kept, h.nonempty, h.stack, h.head, h.body⟩

theorem Sound.restack (h : p.Sound P) (valid : ∀ id ∈ stack, id < p.dom.nodes.length) : { p with stack }.Sound P :=
  ⟨h.kept, h.nonempty, valid, h.head, h.body⟩

theorem Sound.enter (h : p.Sound P) {id : Nat} (lt : id < p.dom.nodes.length) :
    { p with stack := p.stack ++ [id] }.Sound P := by
  refine h.restack ?_
  intro i member
  rcases mem_append.mp member with old | new
  · exact h.stack i old
  rw [mem_singleton.mp new]
  exact lt

theorem Sound.top (h : p.Sound P) : p.top < p.dom.nodes.length := by
  unfold Parser.top
  cases last : p.stack.getLast? with
  | none => exact h.nonempty
  | some id => exact h.stack id (mem_of_getLast? last)

theorem Sound.push (keeps : ParserKeeps P) (h : p.Sound P) (kind : Kind) :
    (p.push kind).1.Sound P ∧ (p.push kind).2 < (p.push kind).1.dom.nodes.length := by
  have length : (p.push kind).1.dom.nodes.length = p.dom.nodes.length + 1 := pushUnder_length ..
  refine ⟨⟨keeps.push kind h.kept h.top, ?_, ?_, ?_, ?_⟩, ?_⟩
  all_goals rw [length]
  · exact Nat.succ_pos _
  · exact fun id member => Nat.lt_succ_of_lt (h.stack id member)
  · exact Nat.lt_succ_of_lt h.head
  · exact Nat.lt_succ_of_lt h.body
  · exact Nat.lt_succ_self _

theorem Sound.appendText (keeps : ParserKeeps P) (h : p.Sound P) (s : String) : (p.appendText s).Sound P := by
  unfold Parser.appendText
  split
  · exact (h.push keeps _).1
  rename_i last _
  split
  · refine ⟨keeps.relabel last (fun n => ⟨rfl, rfl⟩) h.kept, ?_, ?_, ?_, ?_⟩
    all_goals simp only [modify_length]
    · exact h.nonempty
    · exact h.stack
    · exact h.head
    · exact h.body
  · exact (h.push keeps _).1

theorem Sound.openElement (keeps : ParserKeeps P) (h : p.Sound P) (name : String) (attrs : List (String × String))
    (selfClosing : Bool) : (p.openElement name attrs selfClosing).Sound P := by
  obtain ⟨pushed, lt⟩ := h.push keeps (.element name attrs)
  unfold Parser.openElement
  dsimp only
  split
  · exact pushed.enter lt
  · exact pushed

theorem Sound.new (keeps : ParserKeeps P) (start : P ⟨[⟨.document, none, []⟩], 0⟩) (src : Bytes) :
    (Parser.new src).Sound P := by
  have html := keeps.push (p := 0) (.element "html" []) start (by decide)
  have head := keeps.push (p := 1) (.element "head" []) html (by decide)
  have body := keeps.push (p := 1) (.element "body" []) head (by decide)
  have valid : ∀ id ∈ [1, 2], id < 4 := by decide
  exact ⟨body, (by decide : 0 < 4), valid, (by decide : 2 < 4), (by decide : 3 < 4)⟩

/-! ## The states on the way -/

/-- The states the parser passes through: it reads on, opens and closes elements it has, pushes
one that is not of the skeleton, or adds text. -/
inductive Reached (html : Bytes) : Parser → Prop where
  | new : Reached html (Parser.new html)
  | read {p : Parser} {rest : Bytes} (reached : Reached html p) (behind : rest <:+ p.rest) :
    Reached html { p with rest }
  | restack {p : Parser} {stack : List Nat} (reached : Reached html p)
      (known : ∀ id ∈ stack, id ∈ p.stack ∨ id = p.head ∨ id = p.body) : Reached html { p with stack }
  | openElement {p : Parser} (reached : Reached html p) {name : String} (attrs : List (String × String))
      (selfClosing : Bool) (plain : name ∉ ["html", "head", "body"]) :
      Reached html (p.openElement name attrs selfClosing)
  | appendText {p : Parser} (reached : Reached html p) (s : String) : Reached html (p.appendText s)

theorem Reached.sound {html : Bytes} (keeps : ParserKeeps P) (start : P ⟨[⟨.document, none, []⟩], 0⟩)
    (h : Reached html p) : p.Sound P := by
  induction h with
  | new => exact .new keeps start html
  | read _ _ ih => exact ih.reread _
  | restack _ known ih =>
    refine ih.restack fun id member => ?_
    rcases known id member with opened | rfl | rfl
    · exact ih.stack id opened
    · exact ih.head
    · exact ih.body
  | openElement _ attrs selfClosing _ ih => exact ih.openElement keeps _ attrs selfClosing
  | appendText _ s ih => exact ih.appendText keeps s

namespace Reached

variable {html : Bytes} (h : Reached html p)

include h

theorem shorten (sub : stack.Sublist p.stack) : Reached html { p with stack } :=
  h.restack fun _ member => .inl (sub.subset member)

theorem enter (sub : stack.Sublist p.stack) {id : Nat} (skeleton : id = p.head ∨ id = p.body) :
    Reached html { p with stack := stack ++ [id] } := by
  refine h.restack fun i member => ?_
  rcases mem_append.mp member with old | new
  · exact .inl (sub.subset old)
  · exact .inr (mem_singleton.mp new ▸ skeleton)

theorem enterBody : Reached html p.enterBody := by
  have outside : p.outsideHead.Sublist p.stack := by
    unfold outsideHead
    split
    · exact take_sublist _ _
    · exact List.Sublist.refl _
  unfold Parser.enterBody
  split
  · exact h.shorten outside
  · exact h.enter outside (.inr rfl)

variable (name : String)

theorem closeElement : Reached html (p.closeElement name) := by
  unfold Parser.closeElement
  split
  · exact h.enterBody
  split
  · exact h.shorten (take_sublist _ _)
  split
  · exact h
  · exact h.shorten (take_sublist _ _)

theorem closeTags (names : List String) : Reached html (p.closeTags names) := by
  refine whileSome_invariant (Reached html) ?_ h
  intro q next reached step
  split at step
  · cases step
  split at step
  · cases step
    exact reached.shorten (dropLast_sublist _)
  · cases step

theorem text (s : String) : Reached html (p.text s) := by
  unfold Parser.text
  split
  · exact h
  split
  · exact h.enterBody.appendText s
  · exact h.appendText s

theorem closeImplied : Reached html (p.closeImplied name) := by
  unfold Parser.closeImplied
  split
  · split
    · exact h.shorten (dropLast_sublist _)
    · exact h
  · exact h

theorem insert (attrs : List (String × String)) (selfClosing : Bool) :
    Reached html (p.insert name attrs selfClosing) := by
  unfold Parser.insert
  split
  · exact h.shorten (take_sublist _ _)
  split
  · exact h.enter (take_sublist _ _) (.inl rfl)
  split
  · exact h.enter (take_sublist _ _) (.inr rfl)
  rename_i notHtml notHead notBody
  have plain : name ∉ ["html", "head", "body"] := by simp [notHtml, notHead, notBody]
  split
  · exact ((h.enterBody.closeTags _).closeImplied _).openElement attrs selfClosing plain
  · exact ((h.closeTags _).closeImplied _).openElement attrs selfClosing plain

theorem closeRaw : Reached html (p.closeRaw name) := by
  unfold Parser.closeRaw
  split
  · exact h.shorten (dropLast_sublist _)
  · exact h

theorem startTag (here : 1 ≤ p.rest.length) : Reached html (p.startTag here) := by
  have behind := tagEnd_suffix (p.rest.drop 1)
  unfold Parser.startTag
  dsimp only [readName]
  split
  · exact (h.read (drop_suffix _ _)).text _
  split
  · exact (((h.read (((readRawText_suffix _ _).trans behind).trans (drop_suffix _ _))).insert ..).text _).closeRaw _
  · exact (h.read (behind.trans (drop_suffix _ _))).insert ..

theorem endTag (seen : startsWith p.rest "</" = true) : Reached html (p.endTag seen) := by
  have behind := (skipToGt_suffix _).trans (dropWhile_suffix isNameByte (l := p.rest.drop 2))
  have read := h.read (behind.trans (drop_suffix _ _))
  unfold Parser.endTag
  dsimp only [readName]
  split
  · exact read
  · exact read.closeElement _

theorem parseStep {next : Parser} (step : p.parseStep = some next) : Reached html next := by
  unfold Parser.parseStep at step
  split at step
  · cases step
  obtain rfl := Option.some.inj step
  have toGt := h.read (skipToGt_suffix p.rest)
  split
  · exact (h.read (dropWhile_suffix _)).text _
  repeat' split
  · exact h.read ((skipPast_suffix _).trans (drop_suffix _ _))
  · exact toGt
  · exact toGt
  · exact h.endTag _
  · exact toGt
  · exact h.startTag _

theorem parse : Reached html p.parse :=
  whileSome_invariant (Reached html) (fun _ _ reached step => reached.parseStep step) h

end Reached

end Parser

/-- What the parser keeps and starts with holds of every parsed document. -/
theorem Dom.parse_keeps {P : Dom → Prop} (keeps : ParserKeeps P)
    (start : P ⟨[⟨.document, none, []⟩], 0⟩) (html : Bytes) : P (Dom.parse html) :=
  (Parser.Reached.new.parse.sound keeps start).kept

/-- The document a parser starts with has no links. -/
theorem Dom.document_parent (i : Nat) : Dom.parent ⟨[⟨.document, none, []⟩], 0⟩ i = none := by
  rcases i with _ | i <;> rfl

theorem Dom.document_children (i : Nat) : Dom.children ⟨[⟨.document, none, []⟩], 0⟩ i = [] := by
  rcases i with _ | i <;> rfl

theorem Dom.document_forest : Dom.Forest ⟨[⟨.document, none, []⟩], 0⟩ := by
  refine ⟨?_, ?_, ?_⟩
  · intro p c
    simp [Dom.links, document_parent, document_children]
  · intro p
    simp [Dom.links, document_children]
  · intro a above
    obtain ⟨_, _, last⟩ := Relation.TransGen.tail'_iff.mp above
    exact absurd ((document_parent a).symm.trans last) (by simp)

theorem Dom.forest_keeps : ParserKeeps Dom.Forest where
  push kind h lt := (h.pushUnder lt kind).forest
  relabel id _ keeps h := by
    unfold Dom.Forest
    rw [links_setKind _ id _ keeps]
    exact h

/-- Whatever the bytes, parsing them gives a forest. -/
theorem Dom.parse_forest (html : Bytes) : (Dom.parse html).Forest :=
  parse_keeps forest_keeps document_forest html

end BarryOS.Web
