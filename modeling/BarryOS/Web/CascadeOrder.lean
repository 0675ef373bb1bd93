import BarryOS.Lib.TopDown
import BarryOS.Web.Cascade
import BarryOS.Web.DomOrder

/-!
# When a document can be styled

`compute` is a pass over the arena (`TopDown.pass`), so it needs every node to come after
its parent. The parser and every function that adds nodes keep that; a move under a node
that was made later breaks it, and that is what a script does when it wraps an element in
a new one.

The declarations can fail in one way: `rgba()` with fewer than three values. The loops
over ancestors end in a document in order, and no other document gets that far.
-/

namespace BarryOS.Web.Css

open Lib List

/-! ## Colours -/

/-- An `rgba()` with fewer than three values. -/
def shortRgba (v : Text) : Bool :=
  match Text.between "rgba(" ')' (Text.toLower (Text.trim v)) with
  | some inner => (inner.splitOn ',').length < 3
  | none => false

theorem rgbaOf_ok_iff (inner : Text) : (∃ c, rgbaOf inner = .ok c) ↔ 3 ≤ (inner.splitOn ',').length := by
  unfold rgbaOf
  dsimp only
  have same : ((inner.splitOn ',').map Text.trim).length = (inner.splitOn ',').length := length_map ..
  generalize (inner.splitOn ',').map Text.trim = parts at same
  rw [← same]
  split
  next faint =>
    have four : parts.length = 4 := by
      rw [Bool.and_eq_true, decide_eq_true_eq] at faint
      exact faint.1
    exact iff_of_true ⟨_, rfl⟩ (by omega)
  · split
    · exact iff_of_true ⟨_, rfl⟩ (by simp)
    rename_i few
    refine iff_of_false (fun ⟨_, h⟩ => nomatch h) ?_
    intro three
    match parts, three with
    | r :: g :: b :: rest, _ => exact few r g b rest rfl

theorem between_starts {front : String} {back : Char} {v inner : Text}
    (h : Text.between front back v = some inner) : front.toList <+: v := by
  unfold Text.between at h
  split at h
  next starts => exact isPrefixOf_iff_prefix.mp starts
  · cases h

/-- What starts in two ways starts with the same characters. -/
theorem prefix_getElem? {a b v : Text} (first : a <+: v) (second : b <+: v) {i : Nat}
    (lt : i < a.length) (lt' : i < b.length) : a[i]? = b[i]? := by
  obtain ⟨_, rfl⟩ := first
  obtain ⟨_, e⟩ := second
  rw [← List.getElem?_append_left lt, ← e, List.getElem?_append_left lt']

theorem parseColour_ok_iff (v : Text) : (∃ c, parseColour v = .ok c) ↔ shortRgba v = false := by
  unfold parseColour shortRgba
  dsimp only
  generalize Text.toLower (Text.trim v) = w
  cases inRgba : Text.between "rgba(" ')' w with
  | none =>
    refine iff_of_true ?_ rfl
    split
    · exact ⟨_, rfl⟩
    split
    · exact ⟨_, rfl⟩
    · exact ⟨_, rfl⟩
  | some inner =>
    have starts := between_starts inRgba
    split
    · -- the text cannot start with `#` as well
      have clash := prefix_getElem? starts (prefix_append ['#'] _) (i := 0) (by decide) (by decide)
      exact absurd clash (by decide)
    split
    next c found =>
      obtain ⟨inner', inRgb, _⟩ := Option.bind_eq_some_iff.mp found
      have clash := prefix_getElem? starts (between_starts inRgb) (i := 3) (by decide) (by decide)
      exact absurd clash (by decide)
    · rw [rgbaOf_ok_iff]
      simp

/-- The properties that hold a colour. -/
def colourNames : List String := ["color", "background", "background-color"]

/-- The declaration makes the source index past the end of the parts of an `rgba()`. -/
def breaks (name value : String) : Bool :=
  name ∈ colourNames && shortRgba (Text.trim value.toList)

theorem apply_ok_iff (s : Style) (name value : String) :
    (∃ s', apply s name value = .ok s') ↔ breaks name value = false := by
  have colour : ∀ f : Option Rgb → Style, (∃ s', (do
      let c ← parseColour (Text.trim value.toList)
      return f c : Except Fault Style) = .ok s') ↔ shortRgba (Text.trim value.toList) = false := by
    intro f
    rw [← parseColour_ok_iff]
    constructor
    · rintro ⟨s', result⟩
      obtain ⟨c, parsed, _⟩ := bind_eq_ok.mp result
      exact ⟨c, parsed⟩
    · rintro ⟨c, parsed⟩
      exact ⟨f c, bind_eq_ok.mpr ⟨c, parsed, rfl⟩⟩
  have named : ∀ {name : String}, name ∈ colourNames → breaks name value = shortRgba (Text.trim value.toList) := by
    intro name member
    rw [breaks, decide_eq_true member, Bool.true_and]
  unfold apply
  split
  · rw [named (by simp [colourNames])]
    exact colour _
  · rw [named (by simp [colourNames])]
    exact colour _
  · rw [named (by simp [colourNames])]
    exact colour _
  next other₁ other₂ other₃ =>
    refine iff_of_true ⟨_, rfl⟩ ?_
    have absent : name ∉ colourNames := by
      simp only [colourNames, mem_cons, not_mem_nil, or_false, not_or]
      exact ⟨other₁, other₂, other₃⟩
    rw [breaks, decide_eq_false absent, Bool.false_and]

/-! ## Selectors -/

variable {d : Dom}

theorem nearestAncestor_ok (h : d.InOrder) (p : Nat → Bool) {fuel : Nat} {up : Option Nat}
    (positive : 0 < fuel) (enough : ∀ u, up = some u → u + 1 < fuel) : ∃ r, nearestAncestor d p fuel up = .ok r := by
  induction fuel generalizing up with
  | zero => exact absurd positive (Nat.lt_irrefl 0)
  | succ fuel ih =>
    cases up with
    | none => exact ⟨none, rfl⟩
    | some u =>
      have lt := enough u rfl
      unfold nearestAncestor
      split
      · exact ⟨some u, rfl⟩
      refine ih (by omega) ?_
      intro q parent
      have := h u q parent
      omega

/-- In a document in order the matching of a selector ends. -/
theorem matchesFrom_ok (h : d.InOrder) (parts : List Compound) (node : Option Nat) :
    ∃ b, matchesFrom d parts node = .ok b := by
  induction parts generalizing node with
  | nil => exact ⟨true, by simp [matchesFrom]⟩
  | cons part rest ih =>
    cases node with
    | none => exact ⟨false, rfl⟩
    | some n =>
      unfold matchesFrom
      split
      · cases rest with
        | nil => exact ⟨true, rfl⟩
        | cons next rest =>
          dsimp only
          split
          · exact ih (d.parent n)
          have enough : ∀ u, d.parent n = some u → u + 1 < d.nodes.length + 1 := by
            intro u parent
            have := h n u parent
            have := Dom.lt_of_parent parent
            omega
          obtain ⟨r, found⟩ := nearestAncestor_ok h (next.matches d) (Nat.succ_pos _) enough
          rw [found]
          cases r with
          | none => exact ⟨false, rfl⟩
          | some u => exact ih (some u)
      · exact ⟨false, rfl⟩

/-! ## The declarations for an element -/

/-- A declaration applies to an element: a rule has a selector that matches, or it is in the `style`
attribute. -/
def Declares (d : Dom) (sheet : Stylesheet) (id : Nat) (name value : String) : Prop :=
  (∃ rule ∈ sheet.rules, (∃ sel ∈ rule.selectors, sel.matches d id = .ok true) ∧
    ∃ decl ∈ rule.decls, decl.name = name ∧ decl.value = value) ∨
  ∃ text, d.attr id "style" = some text ∧ (name, value) ∈ inlineDeclarations text

theorem firstMatch_isSome {id : Nat} {sels : List Selector} {r : Option Selector}
    (h : firstMatch d id sels = .ok r) : r.isSome = true ↔ ∃ sel ∈ sels, sel.matches d id = .ok true := by
  induction sels with
  | nil =>
    obtain rfl : none = r := Except.ok.inj h
    simp
  | cons sel rest ih =>
    obtain ⟨b, matched, more⟩ := bind_eq_ok.mp h
    cases b with
    | true =>
      obtain rfl : some sel = r := Except.ok.inj more
      exact iff_of_true rfl ⟨sel, mem_cons_self, matched⟩
    | false =>
      rw [ih more]
      simp [matched]

theorem firstMatch_ok (h : d.InOrder) (id : Nat) (sels : List Selector) : ∃ r, firstMatch d id sels = .ok r := by
  induction sels with
  | nil => exact ⟨none, rfl⟩
  | cons sel rest ih =>
    obtain ⟨b, matched⟩ : ∃ b, sel.matches d id = .ok b := matchesFrom_ok h _ _
    obtain ⟨r, more⟩ := ih
    cases b with
    | true => exact ⟨some sel, bind_eq_ok.mpr ⟨true, matched, rfl⟩⟩
    | false => exact ⟨r, bind_eq_ok.mpr ⟨false, matched, more⟩⟩

theorem mem_ruleCandidates {id : Nat} {rule : Rule} {cs : List Candidate}
    (h : ruleCandidates d id rule = .ok cs) (name value : String) : (∃ c ∈ cs, c.name = name ∧ c.value = value) ↔
      (∃ sel ∈ rule.selectors, sel.matches d id = .ok true) ∧
        ∃ decl ∈ rule.decls, decl.name = name ∧ decl.value = value := by
  obtain ⟨r, first, result⟩ := bind_eq_ok.mp h
  rw [← firstMatch_isSome first]
  cases r with
  | none =>
    obtain rfl : [] = cs := Except.ok.inj result
    simp
  | some sel =>
    obtain rfl := Except.ok.inj result
    simp

theorem mem_inlineCandidates (d : Dom) (id : Nat) (name value : String) :
    (∃ c ∈ inlineCandidates d id, c.name = name ∧ c.value = value) ↔
      ∃ text, d.attr id "style" = some text ∧ (name, value) ∈ inlineDeclarations text := by
  unfold inlineCandidates
  cases d.attr id "style" with
  | none => simp
  | some text => simp

theorem mem_candidates {sheet : Stylesheet} {id : Nat} {matched : List (List Candidate)}
    (h : sheet.rules.mapM (ruleCandidates d id) = .ok matched) (name value : String) :
    (∃ c ∈ matched.flatten ++ inlineCandidates d id, c.name = name ∧ c.value = value) ↔
      Declares d sheet id name value := by
  unfold Declares
  rw [← mem_inlineCandidates]
  simp only [mem_append, or_and_right, exists_or, mem_flatten]
  refine or_congr_left ?_
  constructor
  · rintro ⟨c, ⟨cs, member, inner⟩, isIt⟩
    obtain ⟨rule, inSheet, result⟩ := (mem_mapM h).mp member
    exact ⟨rule, inSheet, (mem_ruleCandidates result name value).mp ⟨c, inner, isIt⟩⟩
  · rintro ⟨rule, inSheet, declared⟩
    obtain ⟨cs, result⟩ := mapM_ok_iff.mp ⟨matched, h⟩ rule inSheet
    obtain ⟨c, inner, isIt⟩ := (mem_ruleCandidates result name value).mpr declared
    exact ⟨c, ⟨cs, (mem_mapM h).mpr ⟨rule, inSheet, result⟩, inner⟩, isIt⟩

variable (sheet : Stylesheet)

theorem elementStyle_ok_iff (id : Nat) (tag : String) (parent : Style) :
    (∃ s, elementStyle d sheet id tag parent = .ok s) ↔
      (∃ matched, sheet.rules.mapM (ruleCandidates d id) = .ok matched) ∧
        ∀ name value, Declares d sheet id name value → breaks name value = false := by
  have sorted : ∀ (matched : List (List Candidate)), sheet.rules.mapM (ruleCandidates d id) = .ok matched →
      ((∃ s, ((matched.flatten ++ inlineCandidates d id).insertionSort (Candidate.le · ·)).foldlM
          (fun s c => apply s c.name c.value) (baseStyle tag parent) = .ok s) ↔
        ∀ name value, Declares d sheet id name value → breaks name value = false) := by
    intro matched h
    have applied : ∀ (s : Style) (c : Candidate),
        (∃ s', apply s c.name c.value = .ok s') ↔ breaks c.name c.value = false :=
      fun s c => apply_ok_iff s c.name c.value
    rw [foldlM_ok_iff applied]
    constructor
    · intro good name value declares
      obtain ⟨c, member, rfl, rfl⟩ := (mem_candidates h name value).mpr declares
      exact good c ((perm_insertionSort _ _).mem_iff.mpr member)
    · intro good c member
      exact good c.name c.value ((mem_candidates h _ _).mp ⟨c, (perm_insertionSort _ _).mem_iff.mp member, rfl, rfl⟩)
  constructor
  · rintro ⟨s, result⟩
    obtain ⟨matched, h, rest⟩ := bind_eq_ok.mp result
    exact ⟨⟨matched, h⟩, (sorted matched h).mp ⟨s, rest⟩⟩
  · rintro ⟨⟨matched, h⟩, good⟩
    obtain ⟨s, rest⟩ := (sorted matched h).mpr good
    exact ⟨s, bind_eq_ok.mpr ⟨matched, h, rest⟩⟩

theorem ruleCandidates_ok (h : d.InOrder) (id : Nat) (rules : List Rule) :
    ∃ matched, rules.mapM (ruleCandidates d id) = .ok matched := by
  refine mapM_ok_iff.mpr fun rule _ => ?_
  obtain ⟨r, first⟩ := firstMatch_ok h id rule.selectors
  unfold ruleCandidates
  rw [first]
  cases r with
  | none => exact ⟨[], rfl⟩
  | some sel => exact ⟨_, rfl⟩

/-! ## The pass -/

/-- No declaration for an element is an `rgba()` with fewer than three values. -/
def Coloured (d : Dom) (sheet : Stylesheet) : Prop :=
  ∀ id tag, d.tag id = some tag → ∀ name value, Declares d sheet id name value → breaks name value = false

/-- The styles are one for each node, each derived from that of the node's parent. -/
def StylesOf (d : Dom) (sheet : Stylesheet) (styles : List Style) : Prop :=
  TopDown.Derived d.parent Style.initial (nodeStyle d sheet) d.nodes.length styles

/-- The computation ends and gives every node a style derived from its parent's. -/
def Styled (d : Dom) (sheet : Stylesheet) : Prop :=
  ∃ styles, compute d sheet = .ok styles ∧ StylesOf d sheet styles

theorem parentStyle_eq (d : Dom) : parentStyle d = TopDown.inherited d.parent Style.initial .outOfRange := by
  funext out id
  unfold parentStyle TopDown.inherited
  cases d.parent id with
  | none => rfl
  | some p =>
    dsimp only
    cases out[p]? with
    | none => rfl
    | some style => rfl

theorem compute_eq_pass (d : Dom) (sheet : Stylesheet) :
    compute d sheet = TopDown.pass d.parent Style.initial .outOfRange (nodeStyle d sheet) d.nodes.length := by
  unfold compute TopDown.pass
  rw [parentStyle_eq]

theorem nodeStyle_ok_iff (id : Nat) (parent : Style) :
    (∃ s, nodeStyle d sheet id parent = .ok s) ↔ ∀ tag, d.tag id = some tag →
      (∃ matched, sheet.rules.mapM (ruleCandidates d id) = .ok matched) ∧
        ∀ name value, Declares d sheet id name value → breaks name value = false := by
  unfold nodeStyle Dom.tag
  rcases d.kind id with _ | (_ | ⟨tag, attrs⟩ | _ | _)
  · exact iff_of_true ⟨_, rfl⟩ (fun _ h => nomatch h)
  · exact iff_of_true ⟨_, rfl⟩ (fun _ h => nomatch h)
  · rw [elementStyle_ok_iff]
    exact ⟨fun h _ _ => h, fun h => h tag rfl⟩
  · exact iff_of_true ⟨_, rfl⟩ (fun _ h => nomatch h)
  · exact iff_of_true ⟨_, rfl⟩ (fun _ h => nomatch h)

theorem lt_of_tag {id : Nat} {tag : String} (h : d.tag id = some tag) : id < d.nodes.length := by
  unfold Dom.tag Dom.kind at h
  by_contra ge
  rw [List.getElem?_eq_none (Nat.le_of_not_lt ge)] at h
  cases h

theorem styled_iff (d : Dom) (sheet : Stylesheet) : Styled d sheet ↔ d.InOrder ∧ Coloured d sheet := by
  constructor
  · rintro ⟨styles, computed, derived⟩
    rw [compute_eq_pass] at computed
    refine ⟨fun id p parent => (TopDown.pass_derived computed).2 id (Dom.lt_of_parent parent) p parent, ?_⟩
    intro id tag isElement
    obtain ⟨parent, style, _, value, _⟩ := derived.value id (lt_of_tag isElement)
    exact ((nodeStyle_ok_iff sheet id parent).mp ⟨style, value⟩ tag isElement).2
  · rintro ⟨ordered, coloured⟩
    have succeeds : ∀ id < d.nodes.length, ∀ parent, ∃ s, nodeStyle d sheet id parent = .ok s :=
      fun id _ parent => (nodeStyle_ok_iff sheet id parent).mpr fun tag isElement =>
        ⟨ruleCandidates_ok ordered id sheet.rules, coloured id tag isElement⟩
    obtain ⟨styles, computed⟩ : ∃ styles,
        TopDown.pass d.parent Style.initial .outOfRange (nodeStyle d sheet) d.nodes.length = .ok styles :=
      TopDown.pass_ok (fun id _ p => ordered id p) succeeds
    exact ⟨styles, (compute_eq_pass d sheet).trans computed, (TopDown.pass_derived computed).1⟩

/-- For every page, every script and every style sheet: all the documents of the run can be styled,
with each style derived from that of the node's parent, exactly if every move goes under an earlier
node and no declaration for an element is a short `rgba()`. -/
theorem styled_throughout_iff (html : Bytes) (ops : List DomOp)
    (nodes : Along DomOp.step OnNodes (some (Dom.parse html)) ops) (sheet : Stylesheet) :
    Throughout DomOp.step (Document (Styled · sheet)) (some (Dom.parse html)) ops ↔
      Along DomOp.step CallInOrder (some (Dom.parse html)) ops ∧
        Throughout DomOp.step (Document (Coloured · sheet)) (some (Dom.parse html)) ops := by
  rw [← (Dom.parse_inOrder html).throughout_iff nodes, ← throughout_and]
  refine throughout_congr (fun s => ?_) _ ops
  unfold Document
  rw [← forall_and]
  refine forall_congr' fun d => ?_
  rw [← imp_and]
  exact imp_congr_right fun _ => styled_iff d sheet

/-- No declaration of the sheet and none of a `style` attribute is a short `rgba()`. -/
def declarationsFine (sheet : Stylesheet) (d : Dom) : Bool :=
  sheet.rules.all (fun rule => rule.decls.all fun decl => !breaks decl.name decl.value) &&
    (List.range d.nodes.length).all fun id => (inlineCandidates d id).all fun c => !breaks c.name c.value

theorem coloured_of_fine {sheet : Stylesheet} (fine : declarationsFine sheet d = true) : Coloured d sheet := by
  simp only [declarationsFine, Bool.and_eq_true, all_eq_true, Bool.not_eq_true', mem_range] at fine
  intro id tag isElement name value declares
  rcases declares with ⟨rule, inSheet, _, decl, inRule, rfl, rfl⟩ | inline
  · exact fine.1 rule inSheet decl inRule
  obtain ⟨c, member, rfl, rfl⟩ := (mem_inlineCandidates d id name value).mpr inline
  exact fine.2 id (lt_of_tag isElement) c member

/-- `p` in red, and `b` inside it with a margin. -/
def sampleSheet : Stylesheet where
  rules := [
    { selectors := [⟨[⟨some "p", none, [], [], ' '⟩], 1⟩]
      decls := [⟨"color", "rgba(255, 0, 0, 0.5)", 1⟩] },
    { selectors := [⟨[⟨some "p", none, [], [], ' '⟩, ⟨some "b", none, [], [], ' '⟩], 2⟩]
      decls := [⟨"margin-left", "16px", 2⟩] }]

theorem paragraphScript_styled :
    Throughout DomOp.step (Document (Styled · sampleSheet)) (some (Dom.parse [])) paragraphScript := by
  have fine : ∀ {s : Option Dom}, s.all (declarationsFine sampleSheet) = true →
      Document (Coloured · sampleSheet) s := by
    rintro s all d rfl
    exact coloured_of_fine all
  refine (styled_throughout_iff [] paragraphScript (by decide)
    sampleSheet).mpr ⟨(by decide), ?_⟩
  exact ⟨fine (by decide +kernel), fine (by decide +kernel), fine (by decide +kernel),
    fine (by decide +kernel), fine (by decide +kernel)⟩

/-- A new `div` is put in front of a paragraph, and the paragraph into it. -/
def wrapScript : List DomOp := [.pushElement 0 "div" [], .insertAt 5 3 (some 4), .attach 4 5]

theorem wrapped_not_styled :
    ¬ ∀ (html : Bytes) (ops : List DomOp), Along DomOp.step OnNodes (some (Dom.parse html)) ops →
      ∀ sheet, Throughout DomOp.step (Document (Styled · sheet)) (some (Dom.parse html)) ops := by
  intro claim
  have all := claim (bytesOf "<p>") wrapScript (by decide) ⟨[]⟩
  have halts : (run DomOp.step (some (Dom.parse (bytesOf "<p>"))) wrapScript).map (compute · ⟨[]⟩) =
      some (.error .outOfRange) := by
    decide +kernel
  obtain ⟨d, last, result⟩ := Option.map_eq_some_iff.mp halts
  obtain ⟨styles, computed, _⟩ := all.last d last
  rw [result] at computed
  cases computed

end BarryOS.Web.Css
