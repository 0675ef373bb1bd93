import BarryOS.Web.DomTree

/-!
# The order of the arena

A document is in order when every node comes after its parent. A parsed document is, and
a node that is added goes to the end. What can break the order is a move under a later
node: `insert_at` and `attach` keep it exactly if the new parent comes before the node, or
nothing is moved.
-/

namespace BarryOS.Web

open Lib

variable {d' : Dom}

namespace Dom

/-- Every node comes after its parent. -/
def InOrder (d : Dom) : Prop := ∀ id p, d.parent id = some p → p < id

variable {d : Dom}

theorem inOrder_iff_links : d.InOrder ↔ ∀ id p, d.links.parent id = some p → p < id := Iff.rfl

/-- With fewer links a document stays in order. -/
theorem InOrder.sub (h : d.InOrder) {f : Links Nat}
    (sub : ∀ c p, f.parent c = some p → d.links.parent c = some p) (c p : Nat) (parent : f.parent c = some p) : p < c :=
  h c p (sub c p parent)

/-- With a link more it stays in order exactly if the link is. -/
theorem inOrder_link_iff {f : Links Nat} (h : ∀ c p, f.parent c = some p → p < c) (x p : Nat)
    (ks : List Nat) : (∀ c q, (f.link x p ks).parent c = some q → q < c) ↔ p < x := by
  constructor
  · exact fun ordered => ordered x p Links.link_parent_self
  · intro lt c q parent
    by_cases moved : c = x
    · subst moved
      rw [Links.link_parent_self] at parent
      exact Option.some.inj parent ▸ lt
    rw [Links.link_parent_of_ne moved] at parent
    exact h c q parent

variable {p : Nat}

theorem InOrder.pushUnder (h : d.InOrder) (lt : p < d.nodes.length) (kind : Kind) : (d.pushUnder p kind).1.InOrder := by
  rw [inOrder_iff_links, links_pushUnder lt, inOrder_link_iff (inOrder_iff_links.mp h)]
  exact lt

theorem parse_inOrder (html : Bytes) : (Dom.parse html).InOrder := by
  refine parse_keeps ⟨fun kind h lt => h.pushUnder lt kind, fun id _ keeps h => ?_⟩ ?_ html
  · rw [inOrder_iff_links, links_setKind _ id _ keeps]
    exact h
  · intro c p parent
    rw [document_parent] at parent
    cases parent

/-! ## The calls -/

theorem InOrder.detach (h : d.InOrder) (id : Nat) : (d.detach id).InOrder := by
  rw [inOrder_iff_links, links_detach]
  exact h.sub Links.unlink_parent_sub

theorem InOrder.detachChildren (h : d.InOrder) {id : Nat} (lt : id < d.nodes.length) :
    (d.detachChildren id).InOrder := by
  rw [inOrder_iff_links, links_detachChildren lt]
  refine h.sub fun c p parent => ?_
  have parent : (if c ∈ d.links.kids id then none else d.links.parent c) = some p := parent
  split at parent
  · cases parent
  · exact parent

/-- A document in order that is no shorter than `d`. -/
structure InOrderAfter (d d' : Dom) : Prop where
  ordered : d'.InOrder
  longer : d.nodes.length ≤ d'.nodes.length

theorem InOrderAfter.trans {d₁ d₂ d₃ : Dom} (first : InOrderAfter d₁ d₂) (second : InOrderAfter d₂ d₃) :
    InOrderAfter d₁ d₃ :=
  ⟨second.ordered, Nat.le_trans first.longer second.longer⟩

theorem InOrder.pushed (h : d.InOrder) (lt : p < d.nodes.length) (kind : Kind) :
    InOrderAfter d (d.pushUnder p kind).1 :=
  ⟨h.pushUnder lt kind, by rw [pushUnder_length]; exact Nat.le_succ _⟩

/-- A copy: a node under `p`, and the children copied under it one after the other. -/
theorem InOrder.copied (h : d.InOrder) {p copy : Nat} {kind : Kind} {kids : List Nat}
    {copyKid : Dom → Nat → Option (Dom × Nat)} (lt : p < d.nodes.length)
    (one : ∀ e c r, e.InOrder → d.nodes.length < e.nodes.length → copyKid e c = some r → InOrderAfter e r.1)
    (returned : (kids.foldlM (fun e c => (copyKid e c).map Prod.fst) (d.pushUnder p kind).1).map
      (fun e => (e, d.nodes.length)) = some (d', copy)) : InOrderAfter d d' := by
  obtain ⟨last, loop, e⟩ := Option.map_eq_some_iff.mp returned
  obtain rfl := (Prod.mk.inj e).1
  have pushed := h.pushed lt kind
  refine pushed.trans (foldlM_returned (InOrderAfter (d.pushUnder p kind).1) ?_ ⟨pushed.ordered, le_rfl⟩ loop)
  intro e c next after step
  obtain ⟨r, inner, rfl⟩ := Option.map_eq_some_iff.mp step
  have room := after.longer
  rw [pushUnder_length] at room
  exact after.trans (one e c r after.ordered room inner)

theorem InOrder.copySubtree (source : Dom) {fuel sourceId p copy : Nat} (h : d.InOrder)
    (lt : p < d.nodes.length) (returned : source.copySubtree fuel sourceId d p = some (d', copy)) :
    InOrderAfter d d' := by
  induction fuel generalizing sourceId d p d' copy with
  | zero => cases returned
  | succ fuel ih => exact h.copied lt (fun _ _ _ ordered room inner => ih ordered room inner) returned

theorem InOrder.cloneInto {fuel id p copy : Nat} (h : d.InOrder) (lt : p < d.nodes.length)
    (returned : d.cloneInto fuel id p = some (d', copy)) : InOrderAfter d d' := by
  induction fuel generalizing d id p d' copy with
  | zero => cases returned
  | succ fuel ih => exact h.copied lt (fun _ _ _ ordered room inner => ih ordered room inner) returned

theorem InOrder.appendHtml {html : String} (h : d.InOrder)
    (lt : p < d.nodes.length) (returned : d.appendHtml p html = some d') : d'.InOrder := by
  unfold Dom.appendHtml at returned
  dsimp only at returned
  split at returned
  · obtain rfl := Option.some.inj returned
    exact h
  refine (foldlM_returned (InOrderAfter d) ?_ ⟨h, le_rfl⟩ returned).ordered
  intro e c next after step
  obtain ⟨⟨next', copy'⟩, inner, rfl⟩ := Option.map_eq_some_iff.mp step
  exact after.trans (after.ordered.copySubtree _ (Nat.lt_of_lt_of_le lt after.longer) inner)

theorem InOrder.setTextContent (h : d.InOrder) {id : Nat} (lt : id < d.nodes.length) (text : String) :
    (d.setTextContent id text).InOrder := by
  have emptied := h.detachChildren lt
  unfold Dom.setTextContent
  split
  · exact emptied
  · exact emptied.pushUnder (by rw [detachChildren_length]; exact lt) _

/-- Nothing is moved, or the new parent comes before the node. -/
def MovesUnderEarlier (d : Dom) (id parent : Nat) : Prop :=
  id = parent ∨ d.isAncestor parent id = some true ∨ parent < id

instance (d : Dom) (id parent : Nat) : Decidable (d.MovesUnderEarlier id parent) :=
  inferInstanceAs (Decidable (id = parent ∨ d.isAncestor parent id = some true ∨ parent < id))

theorem InOrder.insertAt_iff (h : d.InOrder) {id parent : Nat} {before : Option Nat}
    (hid : id < d.nodes.length) (hparent : parent < d.nodes.length)
    (returned : d.insertAt id parent before = some d') : d'.InOrder ↔ d.MovesUnderEarlier id parent := by
  by_cases same : id = parent
  · rw [Dom.insertAt, if_pos same] at returned
    obtain rfl := Option.some.inj returned
    exact iff_of_true h (.inl same)
  cases test : d.isAncestor parent id with
  | none =>
    rw [Dom.insertAt, if_neg same, test] at returned
    cases returned
  | some above =>
    cases above with
    | true =>
      rw [Dom.insertAt, if_neg same, test] at returned
      obtain rfl := Option.some.inj returned
      exact iff_of_true h (.inr (.inl test))
    | false =>
      obtain ⟨moved, result, _, linked⟩ := insertAt_moves hid hparent same test before
      obtain rfl := Option.some.inj (result.symm.trans returned)
      rw [inOrder_iff_links, linked, movedLinks, inOrder_link_iff (h.sub Links.unlink_parent_sub)]
      unfold MovesUnderEarlier
      simp [same, test]

/-- In a document in order the ancestor test returns. -/
theorem InOrder.isAncestor (h : d.InOrder) (a x : Nat) : ∃ b, d.isAncestor a x = some b := by
  have general : ∀ (fuel : Nat) (up : Option Nat), 0 < fuel → (∀ u, up = some u → u + 1 < fuel) →
      ∃ b, Links.climb d.parent a fuel up = some b := by
    intro fuel
    induction fuel with
    | zero => exact fun _ positive => absurd positive (Nat.lt_irrefl 0)
    | succ fuel ih =>
      intro up _ enough
      cases up with
      | none => exact ⟨false, rfl⟩
      | some u =>
        have lt := enough u rfl
        unfold Links.climb
        split
        · exact ⟨true, rfl⟩
        refine ih (d.parent u) (by omega) ?_
        intro q parent
        have := h u q parent
        omega
  refine general _ _ (Nat.succ_pos _) ?_
  intro u parent
  have := h x u parent
  have := lt_of_parent parent
  omega

end Dom

/-! ## Runs -/

/-- A move goes under an earlier node. -/
def DomOp.InOrder (d : Dom) : DomOp → Prop
  | attach id parent => d.MovesUnderEarlier id parent
  | insertAt id parent _ => d.MovesUnderEarlier id parent
  | _ => True

def CallInOrder : Option Dom → DomOp → Prop
  | none, _ => True
  | some d, op => op.InOrder d

instance (s : Option Dom) (op : DomOp) : Decidable (CallInOrder s op) :=
  match s, op with
  | none, _ => isTrue trivial
  | some d, .attach id parent => inferInstanceAs (Decidable (d.MovesUnderEarlier id parent))
  | some d, .insertAt id parent _ => inferInstanceAs (Decidable (d.MovesUnderEarlier id parent))
  | some _, .cloneInto .. | some _, .detach _ | some _, .setInnerHtml .. | some _, .setTextContent ..
  | some _, .appendHtml .. | some _, .pushElement .. | some _, .pushText .. | some _, .moveChildTo ..
  | some _, .setAttr .. | some _, .removeAttr .. => isTrue trivial

/-- The document, if there still is one, has the property. -/
def Document (P : Dom → Prop) (s : Option Dom) : Prop := ∀ d, s = some d → P d

namespace Dom

variable {d : Dom}

/-- A call that returns keeps the order exactly if it moves nothing under a later node. -/
theorem InOrder.apply_iff (h : d.InOrder) {op : DomOp} (nodes : OnNodes (some d) op)
    (returned : op.apply d = some d') : d'.InOrder ↔ op.InOrder d := by
  have node : ∀ id ∈ op.nodes, id < d.nodes.length := nodes
  cases op with
  | attach id parent =>
    have atEnd : d.insertAt id parent none = some d' := returned
    exact h.insertAt_iff (node id (.head _)) (node parent (.tail _ (.head _))) atEnd
  | insertAt id parent before =>
    exact h.insertAt_iff (node id (.head _)) (node parent (.tail _ (.head _))) returned
  | cloneInto id parent =>
    obtain ⟨⟨d', copy⟩, cloned, rfl⟩ := Option.map_eq_some_iff.mp returned
    exact iff_of_true (h.cloneInto (node parent (.tail _ (.head _))) cloned).ordered trivial
  | detach id =>
    obtain rfl := Option.some.inj returned
    exact iff_of_true (h.detach id) trivial
  | setInnerHtml id html =>
    have lt := node id (.head _)
    exact iff_of_true ((h.detachChildren lt).appendHtml (by rw [detachChildren_length]; exact lt) returned) trivial
  | setTextContent id text =>
    obtain rfl := Option.some.inj returned
    exact iff_of_true (h.setTextContent (node id (.head _)) text) trivial
  | appendHtml parent html =>
    exact iff_of_true (h.appendHtml (node parent (.head _)) returned) trivial
  | pushElement parent _ _ | pushText parent _ =>
    obtain rfl := Option.some.inj returned
    exact iff_of_true (h.pushUnder (node parent (.head _)) _) trivial
  | moveChildTo parent id index =>
    obtain rfl := Option.some.inj returned
    refine iff_of_true ?_ trivial
    rw [inOrder_iff_links, Dom.moveChildTo, links_setChildren _ _ _ (.inr rfl)]
    exact h
  | setAttr id name value =>
    obtain rfl := Option.some.inj returned
    refine iff_of_true ?_ trivial
    rw [inOrder_iff_links, links_setAttr]
    exact h
  | removeAttr id name =>
    obtain rfl := Option.some.inj returned
    refine iff_of_true ?_ trivial
    rw [inOrder_iff_links, links_removeAttr]
    exact h

theorem InOrder.of_not_returned (h : d.InOrder) {op : DomOp} (failed : op.apply d = none) : op.InOrder d := by
  have moves : ∀ id parent before, d.insertAt id parent before = none → False := by
    intro id parent before failed
    obtain ⟨b, test⟩ := h.isAncestor parent id
    unfold Dom.insertAt at failed
    rw [test] at failed
    split at failed
    · cases failed
    cases b with
    | true => cases failed
    | false => cases failed
  cases op with
  | attach id parent => exact (moves id parent none failed).elim
  | insertAt id parent before => exact (moves id parent before failed).elim
  | _ => trivial

/-- Along a run on nodes, every document is in order exactly if every call is. -/
theorem InOrder.throughout_iff (h : d.InOrder) {ops : List DomOp} (nodes : Along DomOp.step OnNodes (some d) ops) :
    Throughout DomOp.step (Document InOrder) (some d) ops ↔ Along DomOp.step CallInOrder (some d) ops := by
  have gone : ∀ ops, Throughout DomOp.step (Document InOrder) none ops ∧ Along DomOp.step CallInOrder none ops := by
    intro ops
    induction ops with
    | nil => exact ⟨fun _ e => (nomatch e), trivial⟩
    | cons op ops ih => exact ⟨⟨fun _ e => (nomatch e), ih.1⟩, trivial, ih.2⟩
  have here : Document InOrder (some d) := fun e same => Option.some.inj same ▸ h
  induction ops generalizing d with
  | nil => exact iff_of_true here trivial
  | cons op ops ih =>
    cases returned : op.apply d with
    | none =>
      have next : DomOp.step (some d) op = none := returned
      rw [Throughout, Along, next]
      exact iff_of_true ⟨here, (gone ops).1⟩ ⟨h.of_not_returned returned, (gone ops).2⟩
    | some d' =>
      have next : DomOp.step (some d) op = some d' := returned
      have call := h.apply_iff nodes.1 returned
      have rest : d'.InOrder → (Throughout DomOp.step (Document InOrder) (some d') ops ↔
          Along DomOp.step CallInOrder (some d') ops) := fun ordered =>
        ih ordered (next ▸ nodes.2) fun e same => Option.some.inj same ▸ ordered
      rw [Throughout, Along, next]
      constructor
      · rintro ⟨_, more⟩
        have ordered : d'.InOrder := more.first d' rfl
        exact ⟨call.mp ordered, (rest ordered).mp more⟩
      · rintro ⟨allowed, more⟩
        exact ⟨here, (rest (call.mpr allowed)).mpr more⟩

end Dom

end BarryOS.Web
