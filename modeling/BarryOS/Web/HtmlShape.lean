import BarryOS.Web.DomOrder

/-!
# The shape of a parsed document

The parser reads all of its input, and looks at nothing outside it (a step is an `advance`) nor
outside the arena (`Parser.InRange`). What it leaves is one tree, numbered in the order of its start tags
(`Dom.Shaped`), with the one `html`, `head` and `body` it began with: tags of these names open no
element.
-/

namespace BarryOS.Web

open Lib List

variable {d : Dom} {p : Nat}

namespace Dom

/-! ## One tree -/

/-- All nodes hang together, and children stand in the order they were made in. -/
structure Rooted (d : Dom) : Prop where
  forest : d.Forest
  hung : ∀ id < d.nodes.length, id ≠ 0 → ∃ p, d.parent id = some p
  increasing : ∀ p, (d.children p).Pairwise (· < ·)

theorem Rooted.pushUnder (h : d.Rooted) (lt : p < d.nodes.length) (kind : Kind) : (d.pushUnder p kind).1.Rooted := by
  have grown := h.forest.pushUnder lt kind
  refine ⟨grown.forest, fun id below ne => ?_, fun q => ?_⟩
  · rw [pushUnder_length] at below
    rcases Nat.lt_succ_iff_lt_or_eq.mp below with old | rfl
    · rw [grown.parent id old]
      exact h.hung id old ne
    · exact ⟨p, pushUnder_copy lt kind⟩
  · rw [children_pushUnder lt]
    by_cases same : q = p
    · subst same
      rw [Function.update_self, pairwise_append]
      refine ⟨h.increasing q, pairwise_singleton _ _, fun c member new isNew => ?_⟩
      rw [mem_singleton.mp isNew]
      exact h.forest.child_lt member
    · rw [Function.update_of_ne same]
      exact h.increasing q

theorem Rooted.relabel (h : d.Rooted) (id : Nat) {f : NodeData → NodeData}
    (keeps : ∀ n, (f n).parent = n.parent ∧ (f n).children = n.children) : (d.modify id f).Rooted := by
  have links := links_setKind d id f keeps
  obtain ⟨parents, kids⟩ := Links.mk.inj links
  refine ⟨?_, ?_, ?_⟩
  · unfold Forest
    rw [links]
    exact h.forest
  · rw [modify_length, parents]
    exact h.hung
  · rw [kids]
    exact h.increasing

theorem parse_rooted (html : Bytes) : (Dom.parse html).Rooted := by
  refine parse_keeps ⟨fun kind h lt => h.pushUnder lt kind, fun id _ keeps h => h.relabel id keeps⟩
    ⟨document_forest, ?_, ?_⟩ html
  · intro id below ne
    exact absurd (Nat.lt_one_iff.mp below) ne
  · intro p
    rw [document_children]
    exact Pairwise.nil

/-! ## The skeleton -/

/-- The document is there, and one element of each name the parser makes for itself. -/
def Skeleton (d : Dom) : Prop :=
  d.kind 0 = some .document ∧ ∀ name ∈ ["html", "head", "body"], ∃ id, d.byTag name = [id]

theorem kind_pushUnder (kind : Kind) {i : Nat} (old : i < d.nodes.length) :
    (d.pushUnder p kind).1.kind i = d.kind i := by
  rw [pushUnder, Dom.kind, modify_get, getElem?_append_left old]
  split
  · rw [Option.map_map]
    rfl
  · rfl

theorem kind_pushUnder_new (lt : p < d.nodes.length) (kind : Kind) :
    (d.pushUnder p kind).1.kind d.nodes.length = some kind := by
  rw [pushUnder, Dom.kind, modify_get, if_neg (Nat.ne_of_lt lt), getElem?_concat_length]
  rfl

theorem tag_congr {d' : Dom} {i j : Nat} (same : d'.kind i = d.kind j) : d'.tag i = d.tag j := by
  rw [tag, tag, same]

theorem Skeleton.pushUnder (h : d.Skeleton) (lt : p < d.nodes.length) (kind : Kind)
    (plain : ∀ name attrs, kind = .element name attrs → name ∉ ["html", "head", "body"]) :
    (d.pushUnder p kind).1.Skeleton := by
  refine ⟨(kind_pushUnder kind (Nat.zero_lt_of_lt lt)).trans h.1, fun name ours => ?_⟩
  have fresh : (d.pushUnder p kind).1.tag d.nodes.length ≠ some name := by
    unfold tag
    rw [kind_pushUnder_new lt]
    split
    next other attrs made =>
      rintro ⟨⟩
      exact plain _ attrs (Option.some.inj made) ours
    · exact nofun
  have same : (d.pushUnder p kind).1.byTag name = d.byTag name := by
    unfold byTag
    rw [pushUnder_length, range_succ, filter_append, filter_singleton, decide_eq_false fresh, cond_false, append_nil]
    refine filter_congr fun i old => ?_
    rw [tag_congr (kind_pushUnder kind (mem_range.mp old))]
  rw [same]
  exact h.2 name ours

theorem Skeleton.lengthen (h : d.Skeleton) {id : Nat} {t : String} (isText : d.kind id = some (.text t)) (u : String) :
    (d.modify id fun n => { n with kind := .text u }).Skeleton := by
  have other : ∀ i ≠ id, (d.modify id fun n => { n with kind := .text u }).kind i = d.kind i := by
    intro i ne
    rw [Dom.kind, modify_get, if_neg (Ne.symm ne)]
    rfl
  have tags : ∀ i, (d.modify id fun n => { n with kind := .text u }).tag i = d.tag i := by
    intro i
    by_cases same : i = id
    · subst same
      unfold tag
      rw [isText]
      unfold Dom.kind at isText ⊢
      rw [modify_get, if_pos rfl]
      obtain ⟨node, found, -⟩ := Option.map_eq_some_iff.mp isText
      rw [found]
      rfl
    · exact tag_congr (other i same)
  refine ⟨(other 0 ?_).trans h.1, fun name ours => ?_⟩
  · rintro rfl
    rw [h.1] at isText
    cases isText
  · have same : (d.modify id fun n => { n with kind := .text u }).byTag name = d.byTag name := by
      unfold byTag
      simp only [modify_length, tags]
    rw [same]
    exact h.2 name ours

end Dom

/-! ## The parser -/

namespace Parser

variable {html : Bytes} {p : Parser}

/-- What the parser can look at: the input from where it stands, and nodes, whether it comes to them
by the open elements or by their parent. -/
structure InRange (html : Bytes) (p : Parser) : Prop where
  input : p.rest <:+ html
  root : 0 < p.dom.nodes.length
  opened : ∀ id ∈ p.stack, id < p.dom.nodes.length
  skeleton : p.head < p.dom.nodes.length ∧ p.body < p.dom.nodes.length
  kids : ∀ id, ∀ c ∈ p.dom.children id, c < p.dom.nodes.length

theorem Reached.behind (h : Reached html p) : p.rest <:+ html := by
  induction h with
  | new => exact suffix_rfl
  | read _ behind ih => exact behind.trans ih
  | restack _ _ ih => exact ih
  | openElement _ _ _ _ ih =>
    rw [openElement_rest]
    exact ih
  | appendText _ _ ih =>
    rw [appendText_rest]
    exact ih

theorem Reached.inRange (h : Reached html p) : p.InRange html := by
  have sound := h.sound Dom.forest_keeps Dom.document_forest
  exact ⟨h.behind, sound.nonempty, sound.stack, ⟨sound.head, sound.body⟩, fun _ _ member => sound.kept.child_lt member⟩

theorem Reached.skeleton (h : Reached html p) : p.dom.Skeleton := by
  induction h with
  | new =>
    refine ⟨rfl, ?_⟩
    simp only [forall_mem_cons, not_mem_nil, false_implies, implies_true, and_true]
    exact ⟨⟨1, (by decide : (Parser.new []).dom.byTag "html" = [1])⟩,
      ⟨2, (by decide : (Parser.new []).dom.byTag "head" = [2])⟩,
      ⟨3, (by decide : (Parser.new []).dom.byTag "body" = [3])⟩⟩
  | read _ _ ih => exact ih
  | restack _ _ ih => exact ih
  | openElement reached attrs selfClosing plain ih =>
    have top := (reached.sound Dom.forest_keeps Dom.document_forest).top
    have pushed := ih.pushUnder top (.element _ attrs) fun _ _ made => (Kind.element.inj made).1 ▸ plain
    unfold Parser.openElement
    dsimp only
    split
    · exact pushed
    · exact pushed
  | appendText reached s ih =>
    have top := (reached.sound Dom.forest_keeps Dom.document_forest).top
    have pushed := ih.pushUnder top (.text s) nofun
    unfold Parser.appendText
    split
    · exact pushed
    split
    next isText => exact ih.lengthen isText _
    · exact pushed

/-- The loops of the parser, each ended by its own test. -/
structure Ended (html : Bytes) : Prop where
  input : (Parser.new html).parse.rest = []
  attributes : ∀ rest, attributeStep (whileSome (fun s => s.1.length) attributeStep (rest, [])) = none
  closing : ∀ (p : Parser) names opened, (p.closeTags names).currentTag = some opened → opened ∉ names
  entities : ∀ text, (whileSome (fun s => s.1.length) decodeStep (text, "")).1 = []

theorem closeTags_stops (p : Parser) (names : List String) :
    ∀ opened, (p.closeTags names).currentTag = some opened → opened ∉ names := by
  refine whileSome_ends (fun _ last : Parser => ∀ opened, last.currentTag = some opened → opened ∉ names)
    (fun q next step => ?_) (fun q stopped opened current listed => ?_) (fun _ _ _ _ later => later) p
  · split at step
    · cases step
    rename_i current
    split at step
    · cases step
      have nonempty : q.stack ≠ [] := by
        intro none
        rw [currentTag, none] at current
        cases current
      have := length_pos_iff.mpr nonempty
      rw [length_dropLast]
      omega
    · cases step
  · rw [current] at stopped
    dsimp only at stopped
    rw [if_pos listed] at stopped
    cases stopped

theorem ended (html : Bytes) : Ended html where
  input := parse_done _
  attributes rest := whileSome_stops (fun s next h => (attributeStep_reads s next h).2) (rest, [])
  closing := closeTags_stops
  entities := decodeEntities_done

end Parser

/-- A tree under the document, in the order of its numbers, with the skeleton in it once. -/
structure Dom.Shaped (d : Dom) : Prop where
  document : d.kind 0 = some .document ∧ d.parent 0 = none
  parent : ∀ id < d.nodes.length, id ≠ 0 → ∃ p < id, d.parent id = some p ∧ (d.children p).count id = 1
  listed : ∀ p c, c ∈ d.children p ↔ d.parent c = some p
  increasing : ∀ p, (d.children p).Pairwise (· < ·)
  skeleton : ∀ name ∈ ["html", "head", "body"], ∃ id, d.byTag name = [id]

/-- Whatever the bytes: the parser comes to an end, stays inside its input and its arena all the
way, and leaves a document of this shape. -/
theorem Dom.parse_shaped (html : Bytes) :
    Parser.Ended html ∧ (∀ p, Parser.Reached html p → p.InRange html) ∧ (Dom.parse html).Shaped := by
  have rooted := parse_rooted html
  have ordered := parse_inOrder html
  obtain ⟨document, skeleton⟩ := (Parser.Reached.new : Parser.Reached html _).parse.skeleton
  refine ⟨Parser.ended html, fun p reached => reached.inRange, ⟨document, ?_⟩, ?_, rooted.forest.listed,
    rooted.increasing, skeleton⟩
  · exact Option.eq_none_iff_forall_ne_some.mpr fun p parent => Nat.not_lt_zero p (ordered 0 p parent)
  · intro id below ne
    obtain ⟨p, parent⟩ := rooted.hung id below ne
    refine ⟨p, ordered id p parent, parent, ?_⟩
    exact count_eq_one_of_mem (rooted.forest.once p) ((rooted.forest.listed p id).mpr parent)

end BarryOS.Web
