import BarryOS.Web.DomLinks

/-!
# Mutations of a forest

On a forest the ancestor test returns and tells the truth, so `insert_at` and `attach`
return as well; they move the node exactly if the new parent is not above it. The
test that would be needed is the other one: whether the node is above its new parent,
in which case the move closes a circle (`Forest.insertAt_circle`).

A copy returns and keeps the forest unless it goes strictly inside the subtree that is
being copied; there it never returns (`cloneInto_endless`).
-/

namespace BarryOS.Web.Dom

open Lib List Option

variable {d : Dom}

/-! ## Moving a node -/

theorem Forest.isAncestor (h : d.Forest) (a x : Nat) :
    ∃ b, d.isAncestor a x = some b ∧ (b = true ↔ d.links.Above a x) := by
  have within : ∀ c p, d.links.parent c = some p → p ∈ List.range d.nodes.length :=
    fun c p e => mem_range.mpr (h.parent_lt e)
  have := Links.Forest.climb h within a x
  rwa [length_range] at this

theorem Forest.isAncestor_true (h : d.Forest) {a x : Nat} : d.isAncestor a x = some true ↔ d.links.Above a x := by
  obtain ⟨b, result, iff⟩ := h.isAncestor a x
  rw [result, ← iff, Option.some.injEq]

theorem Forest.isAncestor_false (h : d.Forest) {a x : Nat} : d.isAncestor a x = some false ↔ ¬ d.links.Above a x := by
  obtain ⟨b, result, iff⟩ := h.isAncestor a x
  rw [result, ← iff, Option.some.injEq, Bool.not_eq_true]

theorem insertBefore_perm (before : Option Nat) (id : Nat) (ks : List Nat) :
    (insertBefore before id ks).Perm (id :: ks) := by
  unfold insertBefore
  split
  next i _ =>
    have moved : (ks.take i ++ id :: ks.drop i).Perm (id :: (ks.take i ++ ks.drop i)) := perm_middle
    rwa [take_append_drop] at moved
  · exact perm_append_singleton id ks

/-- The links after a move. -/
def movedLinks (d : Dom) (id parent : Nat) (before : Option Nat) : Links Nat :=
  (d.links.unlink id).link id parent (insertBefore before id ((d.links.unlink id).kids parent))

/-- `insert_at` of a node under one that is not above it. -/
theorem insertAt_moves {id parent : Nat} (hid : id < d.nodes.length) (hparent : parent < d.nodes.length)
    (ne : id ≠ parent) (test : d.isAncestor parent id = some false) (before : Option Nat) :
    ∃ d', d.insertAt id parent before = some d' ∧ d'.nodes.length = d.nodes.length ∧
      d'.links = d.movedLinks id parent before := by
  unfold insertAt
  rw [if_neg ne, test]
  refine ⟨_, rfl, ?_, ?_⟩
  · rw [modify_length, modify_length, detach_length]
  · have node : id < (d.detach id).nodes.length := by
      rw [detach_length]
      exact hid
    rw [links_setChildren _ _ _ (.inl (by rw [modify_length, detach_length]; exact hparent)),
      links_setParent node (some parent), movedLinks, ← links_detach]
    rfl

variable {d' : Dom}

theorem Forest.insertAt_forest (h : d.Forest) {id parent : Nat} {before : Option Nat}
    (ne : id ≠ parent) (out : ¬ d.links.Above id parent)
    (moved : d'.links = d.movedLinks id parent before) : d'.Forest := by
  unfold Forest
  rw [moved]
  exact (Links.Forest.unlink h id).link Links.unlink_parent_self ne
    (fun above => out (above.mono Links.unlink_parent_sub)) (insertBefore_perm ..)

/-- A node that is moved into its own subtree ends up above itself. -/
theorem Forest.insertAt_circle (h : d.Forest) {id parent : Nat} {before : Option Nat}
    (inside : d.links.Above id parent) (moved : d'.links = d.movedLinks id parent before) : ¬ d'.Forest := by
  intro forest
  refine forest.acyclic id ?_
  rw [moved]
  exact (Links.Forest.unlink h id).link_circle ((Links.Forest.above_unlink h).mpr inside) _

/-! ## The other mutations -/

theorem Forest.detach (h : d.Forest) (id : Nat) : (d.detach id).Forest := by
  unfold Forest
  rw [links_detach]
  exact Links.Forest.unlink h id

theorem Forest.detachChildren (h : d.Forest) {id : Nat} (lt : id < d.nodes.length) : (d.detachChildren id).Forest := by
  unfold Forest
  rw [links_detachChildren lt]
  exact Links.Forest.clear h id

theorem moveTo_perm (id index : Nat) (ks : List Nat) : (moveTo id index ks).Perm ks := by
  unfold moveTo
  split
  · exact List.Perm.refl ks
  rename_i pos found
  obtain ⟨lt, isId, _⟩ := List.findIdx?_eq_some_iff_getElem.mp found
  have isId : ks[pos] = id := of_decide_eq_true isId
  dsimp only
  generalize min index (ks.eraseIdx pos).length = i
  have moved : ((ks.eraseIdx pos).take i ++ id :: (ks.eraseIdx pos).drop i).Perm
      (id :: ((ks.eraseIdx pos).take i ++ (ks.eraseIdx pos).drop i)) :=
    perm_middle
  rw [take_append_drop, ← isId] at moved
  rw [← isId]
  exact moved.trans (getElem_cons_eraseIdx_perm lt)

theorem Forest.moveChildTo (h : d.Forest) (parent id index : Nat) : (d.moveChildTo parent id index).Forest := by
  unfold Forest
  rw [Dom.moveChildTo, links_setChildren _ _ _ (.inr rfl)]
  exact Links.Forest.reorder h (moveTo_perm id index (d.children parent))

/-! ## Copies -/

/-- `d'` has more nodes than `d`, and of the old ones only `p` has got children. -/
structure Grown (d d' : Dom) (p : Nat) : Prop where
  forest : d'.Forest
  longer : d.nodes.length ≤ d'.nodes.length
  parent : ∀ x < d.nodes.length, d'.parent x = d.parent x
  children : ∀ x < d.nodes.length, x ≠ p → d'.children x = d.children x

theorem Forest.grown (h : d.Forest) (p : Nat) : Grown d d p :=
  ⟨h, Nat.le_refl _, fun _ _ => rfl, fun _ _ _ => rfl⟩

variable {p : Nat}

theorem Grown.trans {d₁ d₂ d₃ : Dom} {q : Nat} (first : Grown d₁ d₂ p) (second : Grown d₂ d₃ q)
    (under : q = p ∨ d₁.nodes.length ≤ q) : Grown d₁ d₃ p where
  forest := second.forest
  longer := Nat.le_trans first.longer second.longer
  parent := by
    intro x lt
    rw [second.parent x (Nat.lt_of_lt_of_le lt first.longer), first.parent x lt]
  children := by
    intro x lt ne
    have ne' : x ≠ q := by
      rcases under with rfl | fresh
      · exact ne
      · omega
    rw [second.children x (Nat.lt_of_lt_of_le lt first.longer) ne', first.children x lt ne]

theorem Grown.above {a x : Nat} (h : d.Forest) (grown : Grown d d' p)
    (lt : x < d.nodes.length) (above : d'.links.Above a x) : d.links.Above a x := by
  induction above with
  | single step => exact .single ((grown.parent _ lt).symm.trans step)
  | tail _ step ih =>
    have old := (grown.parent _ lt).symm.trans step
    exact (ih (h.parent_lt old)).tail old

theorem Forest.pushUnder (h : d.Forest) (lt : p < d.nodes.length) (kind : Kind) : Grown d (d.pushUnder p kind).1 p := by
  have fresh : ∀ x, ¬ d.links.Above d.nodes.length x := by
    intro x above
    obtain ⟨c, member, _⟩ := Links.Forest.above_kid h above
    exact absurd (lt_of_child member) (Nat.lt_irrefl _)
  refine ⟨?_, ?_, ?_, ?_⟩
  · unfold Forest
    rw [links_pushUnder lt]
    exact Links.Forest.link h (parent_of_le (Nat.le_refl _)) (Nat.ne_of_gt lt) (fresh p) (perm_append_singleton ..)
  · rw [pushUnder_length]
    exact Nat.le_succ _
  · intro x below
    rw [parent_pushUnder lt]
    exact Function.update_of_ne (Nat.ne_of_lt below) ..
  · intro x below ne
    rw [children_pushUnder lt]
    exact Function.update_of_ne ne ..

/-- The copy is a node of its own under `p`. -/
theorem pushUnder_copy (lt : p < d.nodes.length) (kind : Kind) :
    (d.pushUnder p kind).1.parent d.nodes.length = some p := by
  rw [parent_pushUnder lt]
  exact Function.update_self ..

theorem Forest.copySubtree (source : Dom) {fuel sourceId : Nat}
    (shallow : Links.Shallow source.children fuel sourceId) (h : d.Forest) (lt : p < d.nodes.length) :
    ∃ d' copy, source.copySubtree fuel sourceId d p = some (d', copy) ∧ Grown d d' p := by
  induction fuel generalizing sourceId d p with
  | zero => exact shallow.elim
  | succ fuel ih =>
    have pushed := h.pushUnder lt (copiedKind (source.kind sourceId))
    obtain ⟨d', result, grown⟩ := foldlM_invariant
      (f := fun target c => (source.copySubtree fuel c target d.nodes.length).map Prod.fst)
      (fun target => Grown d target p ∧ d.nodes.length < target.nodes.length)
      (l := source.children sourceId)
      (by
        rintro target ⟨grown, room⟩ c member
        obtain ⟨next, copy, result, more⟩ := ih (shallow c member) grown.forest room
        refine ⟨next, by rw [result]; rfl, grown.trans more (Or.inr (Nat.le_refl _)), ?_⟩
        exact Nat.lt_of_lt_of_le room more.longer)
      (s := (d.pushUnder p (copiedKind (source.kind sourceId))).1)
      ⟨pushed, by rw [pushUnder_length]; exact Nat.lt_succ_self _⟩
    refine ⟨d', d.nodes.length, ?_, grown.1⟩
    unfold Dom.copySubtree
    dsimp only [pushUnder_snd]
    rw [result]
    rfl

/-- A copy that does not go strictly inside the subtree that is copied. -/
theorem Forest.cloneInto (h : d.Forest) {fuel id : Nat} (shallow : Links.Shallow d.children fuel id)
    (lt : p < d.nodes.length) (out : ¬ d.links.Above id p) :
    ∃ d' copy, d.cloneInto fuel id p = some (d', copy) ∧ Grown d d' p := by
  induction fuel generalizing d id p with
  | zero => exact shallow.elim
  | succ fuel ih =>
    have pushed := h.pushUnder lt (copiedKind (d.kind id))
    have copyParent := pushUnder_copy lt (copiedKind (d.kind id))
    obtain ⟨d', result, grown⟩ := foldlM_invariant (f := fun e c => (cloneInto fuel e c d.nodes.length).map Prod.fst)
      (fun e => Grown d e p ∧ e.parent d.nodes.length = some p)
      (l := d.children id)
      (by
        rintro e ⟨grown, copyParent⟩ c member
        have parent : d.links.parent c = some id := (h.listed id c).mp member
        -- the copy is under `p`, which is not in the subtree of `c`
        have outside : ¬ e.links.Above c d.nodes.length := by
          intro above
          obtain ⟨q, up, last⟩ := Relation.TransGen.tail'_iff.mp above
          obtain rfl := Option.some.inj (copyParent.symm.trans last)
          rcases Relation.reflTransGen_iff_eq_or_transGen.mp up with same | more
          · exact out (same ▸ .single parent)
          · exact out (Relation.TransGen.head parent (grown.above h lt more))
        have same : ∀ y, d.links.Above id y → e.children y = d.children y := by
          intro y inside
          refine grown.children y (above_lt inside) ?_
          rintro rfl
          exact out inside
        obtain ⟨next, copy, result, more⟩ := ih grown.forest
          ((shallow c member).congr (d.links.Above id) (.single parent) same
            (fun y c inside member => inside.tail ((h.listed y c).mp member)))
          (lt_of_parent copyParent) outside
        refine ⟨next, by rw [result]; rfl, grown.trans more (Or.inr (Nat.le_refl _)), ?_⟩
        rw [more.parent _ (lt_of_parent copyParent), copyParent])
      (s := (d.pushUnder p (copiedKind (d.kind id))).1) ⟨pushed, copyParent⟩
    refine ⟨d', d.nodes.length, ?_, grown.1⟩
    unfold Dom.cloneInto
    dsimp only [pushUnder_snd]
    rw [result]
    rfl

/-! ## A copy inside the subtree that is copied -/

/-- `b` can be reached from `a` over children. -/
def Reaches (d : Dom) : Nat → Nat → Prop := Relation.TransGen fun a b => b ∈ d.children a

/-- No node and no child has been lost. -/
structure Extends (d d' : Dom) : Prop where
  longer : d.nodes.length ≤ d'.nodes.length
  children : ∀ a b, b ∈ d.children a → b ∈ d'.children a

theorem Extends.trans {d₁ d₂ d₃ : Dom} (first : Extends d₁ d₂) (second : Extends d₂ d₃) : Extends d₁ d₃ :=
  ⟨Nat.le_trans first.longer second.longer, fun a b member => second.children a b (first.children a b member)⟩

theorem Extends.reaches (h : Extends d d') {a b : Nat} (reaches : d.Reaches a b) : d'.Reaches a b :=
  Relation.TransGen.mono h.children _ _ reaches

theorem extends_pushUnder (d : Dom) (p : Nat) (kind : Kind) : Extends d (d.pushUnder p kind).1 := by
  refine ⟨by rw [pushUnder_length]; exact Nat.le_succ _, ?_⟩
  intro a b member
  have lt := lt_of_child member
  have node := List.getElem?_eq_getElem lt
  rw [children, node] at member
  rw [pushUnder]
  rw [children, modify_get, List.getElem?_append_left lt, node]
  split
  · exact mem_append_left _ member
  · exact member

theorem pushUnder_listed (lt : p < d.nodes.length) (kind : Kind) :
    d.nodes.length ∈ (d.pushUnder p kind).1.children p := by
  rw [children_pushUnder lt, Function.update_self]
  exact mem_append_right _ (mem_singleton_self _)

theorem extends_cloneInto {fuel id copy : Nat} (returned : d.cloneInto fuel id p = some (d', copy)) : Extends d d' := by
  induction fuel generalizing d id p d' copy with
  | zero => cases returned
  | succ fuel ih =>
    obtain ⟨last, loop, e⟩ := map_eq_some_iff.mp returned
    obtain rfl := (Prod.mk.inj e).1
    refine foldlM_returned (Extends d) ?_ (extends_pushUnder d p _) loop
    intro e c next more step
    obtain ⟨⟨next', copy'⟩, inner, rfl⟩ := map_eq_some_iff.mp step
    exact more.trans (ih inner)

/-- The copy of `p` gets a child that is to be copied next, and so on. -/
theorem cloneInto_endless {id : Nat} (inside : d.Reaches id p) (lt : p < d.nodes.length) (fuel : Nat) :
    d.cloneInto fuel id p = none := by
  induction fuel generalizing d id p with
  | zero => rfl
  | succ fuel ih =>
    rw [eq_none_iff_forall_ne_some]
    rintro ⟨d', copy⟩ returned
    obtain ⟨last, loop, _⟩ := map_eq_some_iff.mp returned
    obtain ⟨c, member, rest⟩ := Relation.TransGen.head'_iff.mp inside
    obtain ⟨earlier, later, split⟩ := append_of_mem member
    rw [split, foldlM_append] at loop
    obtain ⟨e, before, loop⟩ := bind_eq_some_iff.mp loop
    rw [foldlM_cons] at loop
    obtain ⟨next, step, _⟩ := bind_eq_some_iff.mp loop
    -- at its turn `c` still reaches `p`, and `p` now has the copy of `id` as a child
    have grown : Extends (d.pushUnder p (copiedKind (d.kind id))).1 e := by
      refine foldlM_returned (Extends (d.pushUnder p (copiedKind (d.kind id))).1) ?_
        ⟨Nat.le_refl _, fun _ _ h => h⟩ before
      intro e c next more step
      obtain ⟨⟨next', copy'⟩, inner, rfl⟩ := map_eq_some_iff.mp step
      exact more.trans (extends_cloneInto inner)
    have listed := grown.children p _ (pushUnder_listed lt (copiedKind (d.kind id)))
    have reaches : e.Reaches c d.nodes.length := by
      rcases Relation.reflTransGen_iff_eq_or_transGen.mp rest with same | more
      · exact same ▸ .single listed
      · exact (((extends_pushUnder d p _).trans grown).reaches more).tail listed
    have room := grown.longer
    rw [pushUnder_length] at room
    rw [ih reaches (by omega)] at step
    cases step

end BarryOS.Web.Dom
