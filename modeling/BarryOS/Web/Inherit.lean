import BarryOS.Web.CascadeOrder

/-!
# What an element takes from its parent

Colour, alignment, weight and style start from the parent's value unless the tag has one. White-space
always starts from the tag's, whatever the parent's is. So text in an element inside a preformatted one
is not preformatted (`inherits_iff`).
-/

namespace BarryOS.Web.Css

open Lib List

/-- The inherited properties. -/
inductive Inherited where
  | colour | alignment | whiteSpace | weight | style
deriving DecidableEq

namespace Inherited

def property : Inherited → String
  | colour => "color"
  | alignment => "text-align"
  | whiteSpace => "white-space"
  | weight => "font-weight"
  | style => "font-style"

abbrev Value : Inherited → Type
  | colour => Rgb
  | alignment => Align
  | whiteSpace => WhiteSpace
  | weight | style => Bool

/-- The computed value. -/
def value : (prop : Inherited) → Style → prop.Value
  | colour, s => s.color
  | alignment, s => s.align
  | whiteSpace, s => s.whiteSpace
  | weight, s => s.bold
  | style, s => s.italic

end Inherited

/-- No declaration for the element sets the property, and its tag has no default for it. -/
def Unset (d : Dom) (sheet : Stylesheet) (prop : Inherited) (id : Nat) : Prop :=
  ∃ tag, d.tag id = some tag ∧ prop.value (Style.userAgent tag) = prop.value Style.initial ∧
    ∀ value, ¬ Declares d sheet id prop.property value

/-- An element below `top`, with no element on the way that sets the property. -/
inductive Nested (d : Dom) (sheet : Stylesheet) (prop : Inherited) (top : Nat) : Nat → Prop
  | child {id : Nat} (parent : d.parent id = some top) (unset : Unset d sheet prop id) :
      Nested d sheet prop top id
  | deeper {id up : Nat} (parent : d.parent id = some up) (unset : Unset d sheet prop id)
      (outer : Nested d sheet prop top up) : Nested d sheet prop top id

/-- The declarations for an element in the order in which they are applied. -/
def applied (d : Dom) (sheet : Stylesheet) (id : Nat) : List Candidate :=
  match sheet.rules.mapM (ruleCandidates d id) with
  | .ok matched => (matched.flatten ++ inlineCandidates d id).insertionSort (Candidate.le · ·)
  | .error _ => []

/-- The white-space after one more declaration. -/
def spaceAfterDecl (space : WhiteSpace) (c : Candidate) : WhiteSpace :=
  if c.name = "white-space" then (applyOther .initial c.name (Text.trim c.value.toList)).whiteSpace else space

/-- What the last declaration of white-space for an element makes it, or else the tag's default, is not
`normal`. -/
def Preformatted (d : Dom) (sheet : Stylesheet) (id : Nat) : Prop :=
  ∃ tag ∈ d.tag id, (applied d sheet id).foldl spaceAfterDecl (Style.userAgent tag).whiteSpace ≠ .normal

/-! ## One declaration -/

variable {prop : Inherited}

theorem foldl_keeps {f : Style → Text → Style}
    (each : ∀ s part, prop.value (f s part) = prop.value s) (s : Style) (parts : List Text) :
    prop.value (parts.foldl f s) = prop.value s := by
  induction parts generalizing s with
  | nil => rfl
  | cons part rest ih => exact (ih _).trans (each s part)

theorem decorate_keeps (prop : Inherited) (s : Style) (part : Text) : prop.value (decorate s part) = prop.value s := by
  unfold decorate
  split
  · cases prop <;> rfl
  · cases prop <;> rfl
  · cases prop <;> rfl
  · rfl

theorem indentBy_keeps (prop : Inherited) (s : Style) (n : Option Int) : prop.value (s.indentBy n) = prop.value s := by
  cases n with
  | none => rfl
  | some n => cases prop <;> rfl

theorem spaced_keeps (prop : Inherited) (s : Style) (before after : Option Int) :
    prop.value (s.spaced before after) = prop.value s := by
  cases prop <;> rfl

theorem applyOther_keeps (s : Style) {name : String} (v : Text)
    (other : name ≠ prop.property) : prop.value (applyOther s name v) = prop.value s := by
  unfold applyOther
  dsimp only
  split
  · cases prop <;> rfl
  · cases prop <;> first | rfl | exact absurd rfl other
  · cases prop <;> first | rfl | exact absurd rfl other
  iterate 2 exact foldl_keeps (decorate_keeps prop) s _
  iterate 2 cases prop <;> first | rfl | exact absurd rfl other
  iterate 3 exact indentBy_keeps prop s _
  iterate 4 exact spaced_keeps prop s _ _
  iterate 2 exact (indentBy_keeps prop _ _).trans (spaced_keeps prop s _ _)
  iterate 2 exact foldl_keeps (fun s part => by cases prop <;> rfl) s _
  all_goals
    repeat' split
    all_goals cases prop <;> rfl

theorem apply_keeps {s s' : Style} {name value : String}
    (result : apply s name value = .ok s') (other : name ≠ prop.property) : prop.value s' = prop.value s := by
  unfold apply at result
  split at result
  · obtain ⟨c, -, rest⟩ := bind_eq_ok.mp result
    cases rest
    cases prop <;> first | rfl | exact absurd rfl other
  · obtain ⟨c, -, rest⟩ := bind_eq_ok.mp result
    cases rest
    cases prop <;> rfl
  · obtain ⟨c, -, rest⟩ := bind_eq_ok.mp result
    cases rest
    cases prop <;> rfl
  · cases result
    exact applyOther_keeps s _ other

theorem apply_whiteSpace {s s' : Style} {c : Candidate} (result : apply s c.name c.value = .ok s') :
    s'.whiteSpace = spaceAfterDecl s.whiteSpace c := by
  unfold spaceAfterDecl
  split
  next named =>
    rw [named] at result ⊢
    cases result
    rfl
  next other =>
    have kept : Inherited.value .whiteSpace s' = Inherited.value .whiteSpace s := apply_keeps result other
    exact kept

/-! ## One element -/

variable {id : Nat} {sheet : Stylesheet} {tag : String}

theorem elementStyle_eq {d : Dom} {parent s : Style} (result : elementStyle d sheet id tag parent = .ok s) :
    (applied d sheet id).foldlM (fun s c => apply s c.name c.value) (baseStyle tag parent) = .ok s ∧
      ∀ c ∈ applied d sheet id, Declares d sheet id c.name c.value := by
  obtain ⟨matched, all, rest⟩ := bind_eq_ok.mp result
  unfold applied
  rw [all]
  exact ⟨rest, fun c member =>
    (mem_candidates all _ _).mp ⟨c, (perm_insertionSort _ _).mem_iff.mp member, rfl, rfl⟩⟩

theorem applied_keeps {cs : List Candidate} {s s' : Style}
    (result : cs.foldlM (fun s c => apply s c.name c.value) s = .ok s')
    (others : ∀ c ∈ cs, c.name ≠ prop.property) : prop.value s' = prop.value s := by
  induction cs generalizing s with
  | nil =>
    cases result
    rfl
  | cons c cs ih =>
    obtain ⟨next, first, rest⟩ := bind_eq_ok.mp result
    have ⟨here, later⟩ := forall_mem_cons.mp others
    exact (ih rest later).trans (apply_keeps first here)

theorem applied_whiteSpace {cs : List Candidate} {s s' : Style}
    (result : cs.foldlM (fun s c => apply s c.name c.value) s = .ok s') :
    s'.whiteSpace = cs.foldl spaceAfterDecl s.whiteSpace := by
  induction cs generalizing s with
  | nil =>
    cases result
    rfl
  | cons c cs ih =>
    obtain ⟨next, first, rest⟩ := bind_eq_ok.mp result
    rw [ih rest, apply_whiteSpace first, foldl_cons]

/-- The parent's white-space has no part in it. -/
theorem baseStyle_whiteSpace (tag : String) (parent : Style) :
    (baseStyle tag parent).whiteSpace = (Style.userAgent tag).whiteSpace := by
  unfold baseStyle
  dsimp only
  split
  · rfl
  next same => exact (not_not.mp same).symm

theorem baseStyle_inherits
    (plain : prop.value (Style.userAgent tag) = prop.value Style.initial) (space : prop ≠ .whiteSpace)
    (parent : Style) : prop.value (baseStyle tag parent) = prop.value parent := by
  cases prop with
  | colour => rfl
  | alignment => exact if_neg (not_not.mpr plain)
  | whiteSpace => exact absurd rfl space
  | weight => exact (congrArg (parent.bold || ·) plain).trans (Bool.or_false _)
  | style => exact (congrArg (parent.italic || ·) plain).trans (Bool.or_false _)

theorem nodeStyle_element {d : Dom} (isElement : d.tag id = some tag)
    (parent : Style) : nodeStyle d sheet id parent = elementStyle d sheet id tag parent := by
  unfold Dom.tag at isElement
  unfold nodeStyle
  split at isElement <;> simp_all

theorem nodeStyle_plain {d : Dom} (noElement : d.tag id = none) {parent s : Style}
    (value : nodeStyle d sheet id parent = .ok s) : s.whiteSpace = parent.whiteSpace := by
  unfold Dom.tag at noElement
  unfold nodeStyle at value
  split at value
  next found => simp [found] at noElement
  · cases value
    rfl
  · cases value
    rfl

/-! ## The document -/

section

variable {d : Dom} {sheet : Stylesheet} {styles : List Style} (computed : compute d sheet = .ok styles)

include computed

theorem compute_derived : StylesOf d sheet styles ∧ d.InOrder := by
  rw [compute_eq_pass] at computed
  have ⟨derived, ordered⟩ := TopDown.pass_derived computed
  exact ⟨derived, fun id p parent => ordered id (Dom.lt_of_parent parent) p parent⟩

theorem style_exists (lt : id < d.nodes.length) : ∃ s, styles[id]? = some s := by
  obtain ⟨-, s, -, -, found⟩ := (compute_derived computed).1.value id lt
  exact ⟨s, found⟩

theorem node_derived {s : Style} (found : styles[id]? = some s) :
    ∃ q, TopDown.FromParent d.parent .initial styles id q ∧ nodeStyle d sheet id q = .ok s := by
  have derived := (compute_derived computed).1
  have ⟨inside, _⟩ := List.getElem?_eq_some_iff.mp found
  obtain ⟨q, s', above, value, found'⟩ := derived.value id (derived.length ▸ inside)
  cases found.symm.trans found'
  exact ⟨q, above, value⟩

theorem whiteSpace_normal_iff (outer : d.tag id = none → d.parent id = none) {s : Style}
    (found : styles[id]? = some s) : s.whiteSpace = .normal ↔ ¬ Preformatted d sheet id := by
  obtain ⟨q, above, value⟩ := node_derived computed found
  cases isElement : d.tag id with
  | some tag =>
    rw [nodeStyle_element isElement] at value
    rw [applied_whiteSpace (elementStyle_eq value).1, baseStyle_whiteSpace]
    simp [Preformatted, isElement]
  | none =>
    rw [nodeStyle_plain isElement value]
    rw [TopDown.FromParent, outer isElement] at above
    simp [Preformatted, isElement, above, Style.initial]

theorem unset_value {up : Nat} {s q : Style} (unset : Unset d sheet prop id)
    (isParent : d.parent id = some up) (found : styles[id]? = some s) (above : styles[up]? = some q) :
    prop.value s = if prop = .whiteSpace then prop.value .initial else prop.value q := by
  obtain ⟨tag, isElement, plain, undeclared⟩ := unset
  obtain ⟨q', above', value⟩ := node_derived computed found
  rw [nodeStyle_element isElement] at value
  unfold TopDown.FromParent at above'
  rw [isParent] at above'
  cases above.symm.trans above'
  have ⟨result, declared⟩ := elementStyle_eq value
  rw [applied_keeps result fun c member named => undeclared c.value (named ▸ declared c member)]
  split
  next space =>
    subst space
    exact (baseStyle_whiteSpace tag q).trans plain
  next other => exact baseStyle_inherits plain other q

theorem nested_value {top : Nat} (nested : Nested d sheet prop top id) {s q : Style}
    (found : styles[id]? = some s) (above : styles[top]? = some q) :
    prop.value s = if prop = .whiteSpace then prop.value .initial else prop.value q := by
  induction nested generalizing s with
  | child parent unset => exact unset_value computed unset parent found above
  | deeper parent unset outer ih =>
    have lt := Dom.lt_of_parent parent
    obtain ⟨u, between⟩ := style_exists computed (Nat.lt_trans ((compute_derived computed).2 _ _ parent) lt)
    rw [unset_value computed unset parent found between, ih between]
    split <;> rfl

theorem Nested.in_document {top : Nat} (nested : Nested d sheet prop top id) : top < id ∧ id < d.nodes.length := by
  induction nested with
  | child parent _ => exact ⟨(compute_derived computed).2 _ _ parent, Dom.lt_of_parent parent⟩
  | deeper parent _ _ ih =>
    exact ⟨Nat.lt_trans ih.1 ((compute_derived computed).2 _ _ parent), Dom.lt_of_parent parent⟩

end

/-- The styles can be computed, and the element has the value of the outer one. -/
def Inherits (d : Dom) (sheet : Stylesheet) (prop : Inherited) (top id : Nat) : Prop :=
  ∃ styles s q, compute d sheet = .ok styles ∧ styles[id]? = some s ∧ styles[top]? = some q ∧
    prop.value s = prop.value q

/-- For every document and style sheet: an element inside others, down to which nothing sets the
property, has the value of the outermost one, or of the document itself, exactly if the document can be
styled and the property is not the white-space of a preformatted one. -/
theorem inherits_iff {d : Dom} {sheet : Stylesheet} {prop : Inherited} {top id : Nat}
    (outer : d.tag top = none → d.parent top = none) (nested : Nested d sheet prop top id) :
    Inherits d sheet prop top id ↔
      (d.InOrder ∧ Coloured d sheet) ∧ (prop = .whiteSpace → ¬ Preformatted d sheet top) := by
  rw [← styled_iff]
  constructor
  · rintro ⟨styles, s, q, computed, found, above, same⟩
    refine ⟨⟨styles, computed, (compute_derived computed).1⟩, ?_⟩
    rintro rfl
    exact (whiteSpace_normal_iff computed outer above).mp
      (same.symm.trans (nested_value computed nested found above))
  · rintro ⟨⟨styles, computed, -⟩, plain⟩
    have ⟨below, inside⟩ := nested.in_document computed
    obtain ⟨s, found⟩ := style_exists computed inside
    obtain ⟨q, above⟩ := style_exists computed (Nat.lt_trans below inside)
    refine ⟨styles, s, q, computed, found, above, (nested_value computed nested found above).trans ?_⟩
    split
    next space =>
      subst space
      exact ((whiteSpace_normal_iff computed outer above).mpr (plain rfl)).symm
    · rfl

/-- Markup inside preformatted text. -/
def preSpan : Dom := Dom.parse (bytesOf "<pre><span>")

theorem preSpan_nested (prop : Inherited) : Nested preSpan ⟨[]⟩ prop 4 5 := by
  refine .child (by decide +kernel) ⟨"span", by decide +kernel, by cases prop <;> rfl, ?_⟩
  rintro value (⟨rule, inSheet, -⟩ | ⟨text, style, -⟩)
  · cases inSheet
  · have none : preSpan.attr 5 "style" = none := by
      decide +kernel
    cases none.symm.trans style

theorem preSpan_pre : preSpan.tag 4 = some "pre" := by
  decide +kernel

theorem preSpan_outer : preSpan.tag 4 = none → preSpan.parent 4 = none := by
  simp [preSpan_pre]

theorem preSpan_colour : Inherits preSpan ⟨[]⟩ .colour 4 5 :=
  (inherits_iff preSpan_outer (preSpan_nested .colour)).mpr
    ⟨⟨Dom.parse_inOrder _, coloured_of_fine (by decide +kernel)⟩, nofun⟩

/-- The `span` is not preformatted. -/
theorem preformatted_not_inherited : ¬ ∀ (d : Dom) (sheet : Stylesheet) (prop : Inherited) (top id : Nat),
    (d.tag top).isSome = true → Nested d sheet prop top id → Inherits d sheet prop top id := by
  intro claim
  have nested := preSpan_nested .whiteSpace
  obtain ⟨styles, s, q, computed, found, above, same⟩ := claim _ _ _ _ _ (by rw [preSpan_pre]; rfl) nested
  have normal : q.whiteSpace = .normal := same.symm.trans (nested_value computed nested found above)
  refine (whiteSpace_normal_iff computed preSpan_outer above).mp normal ⟨"pre", preSpan_pre, ?_⟩
  decide +kernel

end BarryOS.Web.Css
