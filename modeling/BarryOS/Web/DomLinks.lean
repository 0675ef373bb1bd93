import BarryOS.Web.Dom

/-!
# The links of a document

What every function of the arena does to the parent and child links, as one of the
updates of a forest. `Grown` is what a sequence of pushes under one node leaves alone.
-/

namespace BarryOS.Web.Dom

open Lib Function

def links (d : Dom) : Links Nat := ⟨d.parent, d.children⟩

/-- A node is listed by exactly its parent, once, and is not above itself. -/
def Forest (d : Dom) : Prop := d.links.Forest

variable {d : Dom} {id : Nat} {p : Nat}

theorem lt_of_parent (h : d.parent id = some p) : id < d.nodes.length := by
  unfold parent at h
  cases node : d.nodes[id]? with
  | none =>
    rw [node] at h
    cases h
  | some n => exact (List.getElem?_eq_some_iff.mp node).1

theorem lt_of_child {c : Nat} (h : c ∈ d.children id) : id < d.nodes.length := by
  unfold children at h
  cases node : d.nodes[id]? with
  | none =>
    rw [node] at h
    cases h
  | some n => exact (List.getElem?_eq_some_iff.mp node).1

theorem parent_of_le (h : d.nodes.length ≤ id) : d.parent id = none := by
  rw [parent, List.getElem?_eq_none h]
  rfl

theorem children_of_le (h : d.nodes.length ≤ id) : d.children id = [] := by
  rw [children, List.getElem?_eq_none h]
  rfl

theorem Forest.parent_lt (h : d.Forest) (e : d.parent id = some p) : p < d.nodes.length :=
  lt_of_child ((h.listed p id).mpr e)

theorem Forest.child_lt (h : d.Forest) {c : Nat} (member : c ∈ d.children id) : c < d.nodes.length :=
  lt_of_parent ((h.listed id c).mp member)

theorem above_lt {a : Nat} (above : d.links.Above a id) : id < d.nodes.length := by
  obtain ⟨_, _, last⟩ := Relation.TransGen.tail'_iff.mp above
  exact lt_of_parent last

/-! ## Assignments to one node -/

variable (f : NodeData → NodeData)

@[simp] theorem modify_length : (d.modify id f).nodes.length = d.nodes.length := by
  simp [modify]

theorem modify_get (i : Nat) : (d.modify id f).nodes[i]? = if id = i then (d.nodes[i]?).map f else d.nodes[i]? := by
  rw [modify, List.getElem?_modify]
  split <;> simp

theorem links_modify (d : Dom) (id : Nat) : (d.modify id f).links =
    ⟨Function.update d.links.parent id ((d.nodes[id]?).bind fun n => (f n).parent),
      Function.update d.links.kids id (((d.nodes[id]?).map fun n => (f n).children).getD [])⟩ := by
  rw [links, Links.mk.injEq]
  constructor <;> funext i <;> by_cases same : i = id
  · cases found : d.nodes[id]? <;> simp [parent, modify_get, same, found]
  · simp [parent, modify_get, update_of_ne same, Ne.symm same, links]
  · cases found : d.nodes[id]? <;> simp [children, modify_get, same, found]
  · simp [children, modify_get, update_of_ne same, Ne.symm same, links]

theorem links_setParent (lt : id < d.nodes.length) (q : Option Nat) :
    (d.modify id fun n => { n with parent := q }).links = ⟨Function.update d.links.parent id q, d.links.kids⟩ := by
  refine (links_modify _ d id).trans (congrArg₂ Links.mk ?_ (update_eq_self id d.children))
  rw [List.getElem?_eq_getElem lt]
  rfl

theorem links_setChildren (d : Dom) (id : Nat) (g : List Nat → List Nat) (ok : id < d.nodes.length ∨ g [] = []) :
    (d.modify id fun n => { n with children := g n.children }).links =
      ⟨d.links.parent, Function.update d.links.kids id (g (d.links.kids id))⟩ := by
  have here : ((d.nodes[id]?).map fun n => g n.children).getD [] = g (d.links.kids id) := by
    simp only [links, children]
    cases node : d.nodes[id]? with
    | some n => rfl
    | none =>
      rcases ok with lt | nil
      · rw [List.getElem?_eq_getElem lt] at node
        cases node
      · exact nil.symm
  rw [links_modify, here]
  exact congrArg₂ Links.mk (update_eq_self id d.parent) rfl

theorem links_setKind (d : Dom) (id : Nat) (f : NodeData → NodeData)
    (keeps : ∀ n, (f n).parent = n.parent ∧ (f n).children = n.children) : (d.modify id f).links = d.links := by
  simp only [links_modify, keeps]
  exact congrArg₂ Links.mk (update_eq_self id d.parent) (update_eq_self id d.children)

/-! ## The functions of the arena -/

@[simp] theorem pushUnder_snd (p : Nat) (kind : Kind) : (d.pushUnder p kind).2 = d.nodes.length := rfl

@[simp] theorem pushUnder_length (p : Nat) (kind : Kind) :
    (d.pushUnder p kind).1.nodes.length = d.nodes.length + 1 := by
  simp [pushUnder]

theorem links_pushUnder (lt : p < d.nodes.length) (kind : Kind) : (d.pushUnder p kind).1.links =
      d.links.link d.nodes.length p (d.children p ++ [d.nodes.length]) := by
  have pushed : ({ d with nodes := d.nodes ++ [⟨kind, some p, []⟩] } : Dom).links =
      ⟨Function.update d.parent d.nodes.length (some p), d.children⟩ := by
    rw [links, Links.mk.injEq]
    constructor
    · funext i
      rcases Nat.lt_trichotomy i d.nodes.length with below | same | above
      · rw [parent, List.getElem?_append_left below, update_of_ne (Nat.ne_of_lt below)]
        rfl
      · subst same
        rw [parent, List.getElem?_concat_length, update_self]
        rfl
      · rw [update_of_ne (Nat.ne_of_gt above), parent_of_le (Nat.le_of_lt above), parent_of_le]
        rw [List.length_append]
        exact above
    · funext i
      rcases Nat.lt_trichotomy i d.nodes.length with below | same | above
      · rw [children, List.getElem?_append_left below]
        rfl
      · subst same
        rw [children, List.getElem?_concat_length, children_of_le (Nat.le_refl _)]
        rfl
      · rw [children_of_le (Nat.le_of_lt above), children_of_le]
        rw [List.length_append]
        exact above
  rw [pushUnder, links_setChildren _ _ (fun ks => ks ++ [d.nodes.length])
    (.inl (by rw [List.length_append]; exact Nat.lt_succ_of_lt lt)), pushed]
  rfl

theorem parent_pushUnder (lt : p < d.nodes.length) (kind : Kind) :
    (d.pushUnder p kind).1.parent = Function.update d.parent d.nodes.length (some p) :=
  congrArg Links.parent (links_pushUnder lt kind)

theorem children_pushUnder (lt : p < d.nodes.length) (kind : Kind) :
    (d.pushUnder p kind).1.children = Function.update d.children p (d.children p ++ [d.nodes.length]) :=
  congrArg Links.kids (links_pushUnder lt kind)

theorem links_detach (d : Dom) (id : Nat) : (d.detach id).links = d.links.unlink id := by
  cases e : d.parent id with
  | none =>
    have e' : d.links.parent id = none := e
    simp only [detach, Links.unlink, e, e']
  | some p =>
    have e' : d.links.parent id = some p := e
    simp only [detach, Links.unlink, e, e']
    rw [links_setParent (by rw [modify_length]; exact lt_of_parent e),
      links_setChildren d p (List.filter (· ≠ id)) (.inr rfl)]

@[simp] theorem detach_length (d : Dom) (id : Nat) : (d.detach id).nodes.length = d.nodes.length := by
  unfold detach
  split
  · rfl
  · rw [modify_length, modify_length]

theorem links_orphan (d : Dom) (old : List Nat) :
    (d.orphan old).links = ⟨fun c => if c ∈ old then none else d.links.parent c, d.links.kids⟩ := by
  induction old generalizing d with
  | nil => simp [orphan]
  | cons c old ih =>
    have step : (d.modify c fun n => { n with parent := none }).links =
        ⟨Function.update d.links.parent c none, d.links.kids⟩ := by
      refine (links_modify _ d c).trans (congrArg₂ Links.mk (congrArg _ ?_) (update_eq_self c d.children))
      cases d.nodes[c]? <;> rfl
    rw [orphan, ih, step, Links.mk.injEq]
    refine ⟨?_, rfl⟩
    funext x
    by_cases same : x = c
    · simp [same]
    · simp [same]

theorem links_detachChildren (lt : id < d.nodes.length) : (d.detachChildren id).links = d.links.clear id := by
  rw [detachChildren, links_orphan, links_setChildren d id (fun _ => []) (.inl lt)]
  rfl

@[simp] theorem orphan_length (d : Dom) (old : List Nat) : (d.orphan old).nodes.length = d.nodes.length := by
  induction old generalizing d with
  | nil => rfl
  | cons c old ih => rw [orphan, ih, modify_length]

@[simp] theorem detachChildren_length (d : Dom) (id : Nat) : (d.detachChildren id).nodes.length = d.nodes.length := by
  rw [detachChildren, orphan_length, modify_length]

theorem links_setAttr (d : Dom) (id : Nat) (name value : String) : (d.setAttr id name value).links = d.links := by
  refine links_setKind _ _ _ ?_
  intro n
  split <;> exact ⟨rfl, rfl⟩

theorem links_removeAttr (d : Dom) (id : Nat) (name : String) : (d.removeAttr id name).links = d.links := by
  refine links_setKind _ _ _ ?_
  intro n
  split <;> exact ⟨rfl, rfl⟩

end BarryOS.Web.Dom
