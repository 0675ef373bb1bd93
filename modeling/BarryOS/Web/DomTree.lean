import BarryOS.Lib.Run
import BarryOS.Web.HtmlTree

/-!
# Scripts and the document tree

The calls a script makes of `apps/web/dom.rs`, in any order, on a parsed document. A
state is `none` once a call has not returned.

A call is sound when it returns, leaves a forest, and a move of a node under one
outside its own subtree has placed it there. `insert_at` and `attach` ask whether the
new parent is above the node, and not whether the node is above the new parent: they
refuse what they should do and do what they should refuse. The runs in which every call
is sound are exactly those in which no call meets that (`sound_iff_admits`).
-/

namespace BarryOS.Web

open Lib

namespace Dom

/-- Parse `html` and append what it contains as children of `parent`. -/
def appendHtml (d : Dom) (parent : Nat) (html : String) : Option Dom :=
  let parsed := Dom.parse (bytesOf html)
  match (parsed.byTag "body").head? with
  | none => some d
  | some body =>
    (parsed.children body).foldlM
      (fun d c => (parsed.copySubtree (parsed.nodes.length + 1) c d parent).map Prod.fst) d

/-- Replace an element's children with a parsed fragment. -/
def setInnerHtml (d : Dom) (id : Nat) (html : String) : Option Dom :=
  (d.detachChildren id).appendHtml id html

end Dom

inductive DomOp where
  | attach (id parent : Nat)
  | insertAt (id parent : Nat) (before : Option Nat)
  | detach (id : Nat)
  | cloneInto (id parent : Nat)
  | setInnerHtml (id : Nat) (html : String)
  | setTextContent (id : Nat) (text : String)
  | appendHtml (parent : Nat) (html : String)
  | pushElement (parent : Nat) (tag : String) (attrs : List (String × String))
  | pushText (parent : Nat) (text : String)
  | moveChildTo (parent id index : Nat)
  | setAttr (id : Nat) (name value : String)
  | removeAttr (id : Nat) (name : String)

namespace DomOp

def apply (d : Dom) : DomOp → Option Dom
  | attach id parent => d.attach id parent
  | insertAt id parent before => d.insertAt id parent before
  | detach id => some (d.detach id)
  | cloneInto id parent => (d.cloneInto (d.nodes.length + 1) id parent).map Prod.fst
  | setInnerHtml id html => d.setInnerHtml id html
  | setTextContent id text => some (d.setTextContent id text)
  | appendHtml parent html => d.appendHtml parent html
  | pushElement parent tag attrs => some (d.pushElement parent tag attrs).1
  | pushText parent text => some (d.pushText parent text).1
  | moveChildTo parent id index => some (d.moveChildTo parent id index)
  | setAttr id name value => some (d.setAttr id name value)
  | removeAttr id name => some (d.removeAttr id name)

/-- The nodes a call reads or changes. -/
def nodes : DomOp → List Nat
  | attach id parent | insertAt id parent _ | cloneInto id parent => [id, parent]
  | detach id | setInnerHtml id _ | setTextContent id _ | setAttr id _ _ | removeAttr id _ => [id]
  | appendHtml parent _ | pushElement parent _ _ | pushText parent _ | moveChildTo parent _ _ => [parent]

def step (s : Option Dom) (op : DomOp) : Option Dom := s.bind op.apply

end DomOp

/-- In `d'` the node is under `parent`, before `before` or at the end, and the other children are
those of `d`. -/
structure Placed (d d' : Dom) (id parent : Nat) (before : Option Nat) : Prop where
  under : d'.parent id = some parent
  order : d'.children parent = Dom.insertBefore before id ((d.children parent).filter (· ≠ id))

instance (d d' : Dom) (id parent : Nat) (before : Option Nat) : Decidable (Placed d d' id parent before) :=
  decidable_of_iff (d'.parent id = some parent ∧
      d'.children parent = Dom.insertBefore before id ((d.children parent).filter (· ≠ id)))
    ⟨fun h => ⟨h.1, h.2⟩, fun h => ⟨h.under, h.order⟩⟩

/-- A move of `id` under a node outside its own subtree has placed it there. -/
def DomOp.Places (d d' : Dom) : DomOp → Prop
  | attach id parent => id ≠ parent → ¬ d.links.Above id parent → Placed d d' id parent none
  | insertAt id parent before => id ≠ parent → ¬ d.links.Above id parent → Placed d d' id parent before
  | _ => True

/-- The call is on nodes of the document. -/
def OnNodes : Option Dom → DomOp → Prop
  | none, _ => True
  | some d, op => ∀ id ∈ op.nodes, id < d.nodes.length

instance (s : Option Dom) (op : DomOp) : Decidable (OnNodes s op) :=
  match s with
  | none => isTrue trivial
  | some d => inferInstanceAs (Decidable (∀ id ∈ op.nodes, id < d.nodes.length))

/-- The call returns, leaves a forest, and has placed what it moves. -/
def SoundCall : Option Dom → DomOp → Prop
  | none, _ => True
  | some d, op => ∃ d', op.apply d = some d' ∧ d'.Forest ∧ op.Places d d'

/-- Neither node of a move is above the other, or the node is where it should go already; a copy does
not go strictly inside the subtree that is copied. -/
def DomOp.Admitted (d : Dom) : DomOp → Prop
  | attach id parent => id = parent ∨ d.isAncestor id parent = some false ∧
      (d.isAncestor parent id = some false ∨ Placed d d id parent none)
  | insertAt id parent before => id = parent ∨ d.isAncestor id parent = some false ∧
      (d.isAncestor parent id = some false ∨ Placed d d id parent before)
  | cloneInto id parent => d.isAncestor id parent = some false
  | _ => True

def Admits : Option Dom → DomOp → Prop
  | none, _ => True
  | some d, op => op.Admitted d

instance (s : Option Dom) (op : DomOp) : Decidable (Admits s op) :=
  match s, op with
  | none, _ => isTrue trivial
  | some d, .attach id parent => inferInstanceAs (Decidable (id = parent ∨
      d.isAncestor id parent = some false ∧ (d.isAncestor parent id = some false ∨ Placed d d id parent none)))
  | some d, .insertAt id parent before => inferInstanceAs (Decidable (id = parent ∨
      d.isAncestor id parent = some false ∧ (d.isAncestor parent id = some false ∨ Placed d d id parent before)))
  | some d, .cloneInto id parent => inferInstanceAs (Decidable (d.isAncestor id parent = some false))
  | some _, .detach _ | some _, .setInnerHtml .. | some _, .setTextContent .. | some _, .appendHtml ..
  | some _, .pushElement .. | some _, .pushText .. | some _, .moveChildTo .. | some _, .setAttr ..
  | some _, .removeAttr .. => isTrue trivial

namespace Dom

variable {d : Dom} {id parent : Nat}

theorem Forest.insertAt_sound_iff (h : d.Forest) (before : Option Nat)
    (hid : id < d.nodes.length) (hparent : parent < d.nodes.length) :
    (∃ d', d.insertAt id parent before = some d' ∧ d'.Forest ∧
      (id ≠ parent → ¬ d.links.Above id parent → Placed d d' id parent before)) ↔
    (id = parent ∨ d.isAncestor id parent = some false ∧
      (d.isAncestor parent id = some false ∨ Placed d d id parent before)) := by
  by_cases same : id = parent
  · exact iff_of_true ⟨d, if_pos same, h, fun ne => absurd same ne⟩ (.inl same)
  by_cases above : d.links.Above parent id
  · -- the move is refused
    have refused : d.insertAt id parent before = some d := by
      rw [Dom.insertAt, if_neg same, h.isAncestor_true.mpr above]
    have out : ¬ d.links.Above id parent := fun inside => h.acyclic _ (above.trans inside)
    constructor
    · rintro ⟨d', result, _, placed⟩
      obtain rfl := Option.some.inj (refused.symm.trans result)
      exact .inr ⟨h.isAncestor_false.mpr out, .inr (placed same out)⟩
    · rintro (e | ⟨_, test | placed⟩)
      · exact absurd e same
      · exact absurd above (h.isAncestor_false.mp test)
      · exact ⟨d, refused, h, fun _ _ => placed⟩
  · -- the node is moved
    obtain ⟨d', result, _, moved⟩ := insertAt_moves hid hparent same (h.isAncestor_false.mpr above) before
    constructor
    · rintro ⟨d'', result', forest, _⟩
      obtain rfl := Option.some.inj (result.symm.trans result')
      refine .inr ⟨h.isAncestor_false.mpr ?_, .inl (h.isAncestor_false.mpr above)⟩
      exact fun inside => h.insertAt_circle inside moved forest
    · rintro (e | ⟨out, _⟩)
      · exact absurd e same
      · refine ⟨d', result, h.insertAt_forest same (h.isAncestor_false.mp out) moved, fun _ _ => ?_⟩
        refine ⟨(congrFun (congrArg Links.parent moved) id).trans Links.link_parent_self, ?_⟩
        refine ((congrFun (congrArg Links.kids moved) parent).trans Links.link_kids_self).trans ?_
        rw [Links.Forest.unlink_kids h]
        rfl

theorem Forest.reaches_iff (h : d.Forest) {a b : Nat} : d.Reaches a b ↔ d.links.Above a b := by
  constructor
  · exact Relation.TransGen.mono (fun p c member => (h.listed p c).mp member) _ _
  · exact Relation.TransGen.mono (fun p c e => (h.listed p c).mpr e) _ _

theorem Forest.shallow (h : d.Forest) (lt : id < d.nodes.length) :
    Links.Shallow d.children (d.nodes.length + 1) id := by
  have within : ∀ p c, c ∈ d.links.kids p → c ∈ List.range d.nodes.length :=
    fun p c member => List.mem_range.mpr (h.child_lt member)
  have := Links.Forest.shallow h within (List.mem_range.mpr lt)
  rwa [List.length_range] at this

/-- When `clone_into` is sound: exactly when it returns. -/
theorem Forest.cloneInto_sound_iff (h : d.Forest) (hid : id < d.nodes.length) (hparent : parent < d.nodes.length) :
    (∃ d', (d.cloneInto (d.nodes.length + 1) id parent).map Prod.fst = some d' ∧ d'.Forest) ↔
      d.isAncestor id parent = some false := by
  rw [h.isAncestor_false]
  constructor
  · rintro ⟨d', returned, _⟩ inside
    rw [cloneInto_endless (h.reaches_iff.mpr inside) hparent] at returned
    cases returned
  · intro out
    obtain ⟨d', copy, returned, grown⟩ := h.cloneInto (h.shallow hid) hparent out
    exact ⟨d', by rw [returned]; rfl, grown.forest⟩

theorem Forest.appendHtml (h : d.Forest) (lt : parent < d.nodes.length) (html : String) :
    ∃ d', d.appendHtml parent html = some d' ∧ d'.Forest := by
  have parsed := Dom.parse_forest (bytesOf html)
  unfold Dom.appendHtml
  dsimp only
  generalize Dom.parse (bytesOf html) = source at parsed
  split
  · exact ⟨d, rfl, h⟩
  rename_i body _
  obtain ⟨d', returned, grown⟩ := foldlM_invariant
    (f := fun e c => (source.copySubtree (source.nodes.length + 1) c e parent).map Prod.fst)
    (fun e => Grown d e parent) (l := source.children body)
    (by
      intro e grown c member
      obtain ⟨next, copy, result, more⟩ := grown.forest.copySubtree source
        (parsed.shallow (parsed.child_lt member)) (Nat.lt_of_lt_of_le lt grown.longer)
      exact ⟨next, by rw [result]; rfl, grown.trans more (.inl rfl)⟩)
    (h.grown parent)
  exact ⟨d', returned, grown.forest⟩

theorem Forest.setTextContent (h : d.Forest) (lt : id < d.nodes.length) (text : String) :
    (d.setTextContent id text).Forest := by
  have emptied := h.detachChildren lt
  unfold Dom.setTextContent
  split
  · exact emptied
  · exact (emptied.pushUnder (by rw [detachChildren_length]; exact lt) _).forest

end Dom

/-- On a forest the sound calls are the admitted ones. -/
theorem Dom.Forest.sound_iff {d : Dom} (h : d.Forest) {op : DomOp} (nodes : OnNodes (some d) op) :
    SoundCall (some d) op ↔ Admits (some d) op := by
  have node : ∀ id ∈ op.nodes, id < d.nodes.length := nodes
  have always : ∀ d', op.apply d = some d' → d'.Forest → op.Places d d' → op.Admitted d →
      (SoundCall (some d) op ↔ Admits (some d) op) :=
    fun d' returned forest places admitted => iff_of_true ⟨d', returned, forest, places⟩ admitted
  cases op with
  | attach id parent =>
    exact h.insertAt_sound_iff none (node id (.head _)) (node parent (.tail _ (.head _)))
  | insertAt id parent before =>
    exact h.insertAt_sound_iff before (node id (.head _)) (node parent (.tail _ (.head _)))
  | cloneInto id parent =>
    have iff := h.cloneInto_sound_iff (node id (.head _)) (node parent (.tail _ (.head _)))
    simpa only [SoundCall, Admits, DomOp.apply, DomOp.Places, DomOp.Admitted, and_true] using iff
  | detach id => exact always _ rfl (h.detach id) trivial trivial
  | setInnerHtml id html =>
    have lt := node id (.head _)
    obtain ⟨d', returned, forest⟩ := (h.detachChildren lt).appendHtml (by rw [Dom.detachChildren_length]; exact lt) html
    exact always d' returned forest trivial trivial
  | setTextContent id text =>
    exact always _ rfl (h.setTextContent (node id (.head _)) text) trivial trivial
  | appendHtml parent html =>
    obtain ⟨d', returned, forest⟩ := h.appendHtml (node parent (.head _)) html
    exact always d' returned forest trivial trivial
  | pushElement parent tag attrs =>
    exact always _ rfl (h.pushUnder (node parent (.head _)) _).forest trivial trivial
  | pushText parent text =>
    exact always _ rfl (h.pushUnder (node parent (.head _)) _).forest trivial trivial
  | moveChildTo parent id index => exact always _ rfl (h.moveChildTo parent id index) trivial trivial
  | setAttr id name value =>
    refine always _ rfl ?_ trivial trivial
    unfold Dom.Forest
    rw [Dom.links_setAttr]
    exact h
  | removeAttr id name =>
    refine always _ rfl ?_ trivial trivial
    unfold Dom.Forest
    rw [Dom.links_removeAttr]
    exact h

/-- Along a run on nodes, every call is sound exactly if every call is admitted. -/
theorem Dom.Forest.run_sound_iff {d : Dom} (h : d.Forest) {ops : List DomOp}
    (nodes : Along DomOp.step OnNodes (some d) ops) :
    Along DomOp.step SoundCall (some d) ops ↔ Along DomOp.step Admits (some d) ops := by
  induction ops generalizing d with
  | nil => exact Iff.rfl
  | cons op ops ih =>
    obtain ⟨node, nodes⟩ := nodes
    rw [Along, Along, ← h.sound_iff node]
    apply and_congr_right
    rintro ⟨d', returned, forest, _⟩
    have next : DomOp.step (some d) op = some d' := returned
    rw [next] at nodes ⊢
    exact ih forest nodes

/-- For every document and every script: the parsed document is a forest, and the calls all return,
keep it one and place what they move exactly if they are all admitted. -/
theorem sound_iff_admits (html : Bytes) (ops : List DomOp)
    (nodes : Along DomOp.step OnNodes (some (Dom.parse html)) ops) : (Dom.parse html).Forest ∧
      (Along DomOp.step SoundCall (some (Dom.parse html)) ops ↔ Along DomOp.step Admits (some (Dom.parse html)) ops) :=
  ⟨Dom.parse_forest html, (Dom.parse_forest html).run_sound_iff nodes⟩

/-- A paragraph is made, moved into the body, filled and copied. -/
def paragraphScript : List DomOp :=
  [.pushElement 0 "p" [], .attach 4 3, .setInnerHtml 4 "<b>x", .cloneInto 4 0]

theorem sound_of_paragraphScript : Along DomOp.step SoundCall (some (Dom.parse [])) paragraphScript :=
  (sound_iff_admits [] paragraphScript (by decide)).2.mpr
    (by decide)

/-- The empty document, and its `html` element attached under its own `body`. -/
theorem attach_inside_itself :
    ¬ ∀ (html : Bytes) (ops : List DomOp), Along DomOp.step OnNodes (some (Dom.parse html)) ops →
      Along DomOp.step SoundCall (some (Dom.parse html)) ops := by
  intro claim
  obtain ⟨⟨d, returned, forest, _⟩, _⟩ := claim [] [.attach 1 3] ⟨by decide, trivial⟩
  have up : ((DomOp.attach 1 3).apply (Dom.parse [])).map (fun d => (d.parent 1, d.parent 3)) =
      some (some 3, some 1) := by
    decide
  rw [returned, Option.map_some, Option.some.injEq, Prod.mk.injEq] at up
  exact forest.acyclic 1 (.tail (.single up.2) up.1)

end BarryOS.Web
