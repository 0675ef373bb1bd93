import Mathlib.Data.List.Nodup
import Mathlib.Data.List.Perm.Subperm

/-!
# Forests of doubly linked nodes

Every node names its parent and lists its children. The links form a forest when a
node is listed by exactly its parent, once, and no node is above itself. The four
updates a program makes (hang a loose node under another, take a node out, let go of
all children, reorder children) keep that, and the first one needs the node not to be
above its new parent.

`climb` is the usual loop that follows parent links upwards, `Shallow` bounds a
recursion over children. In a forest whose nodes are all in a list, both end within
the length of that list.
-/

namespace BarryOS.Lib

open List Function

/-- The parent of every node, and its children in order. -/
structure Links (ι : Type) where
  parent : ι → Option ι
  kids : ι → List ι

namespace Links

variable {ι : Type}

/-- `a` is a proper ancestor of `b`. -/
def Above (f : Links ι) : ι → ι → Prop := Relation.TransGen fun a b => f.parent b = some a

structure Forest (f : Links ι) : Prop where
  listed : ∀ p c, c ∈ f.kids p ↔ f.parent c = some p
  once : ∀ p, (f.kids p).Nodup
  acyclic : ∀ a, ¬ f.Above a a

theorem Above.mono {f g : Links ι} (sub : ∀ c p, f.parent c = some p → g.parent c = some p) {a b : ι}
    (h : f.Above a b) : g.Above a b :=
  Relation.TransGen.mono (fun p c => sub c p) _ _ h

/-- The first step down from an ancestor. -/
theorem Forest.above_kid {f : Links ι} (h : f.Forest) {a b : ι} (above : f.Above a b) :
    ∃ c ∈ f.kids a, c = b ∨ f.Above c b := by
  obtain ⟨c, first, rest⟩ := Relation.TransGen.head'_iff.mp above
  refine ⟨c, (h.listed a c).mpr first, ?_⟩
  rcases Relation.reflTransGen_iff_eq_or_transGen.mp rest with same | more
  · exact .inl same.symm
  · exact .inr more

/-- A chain down from a node does not use the link above it. -/
theorem Forest.above_of_same {f g : Links ι} {x b : ι} (h : f.Forest) (same : ∀ c, c ≠ x → g.parent c = f.parent c)
    (above : f.Above x b) : g.Above x b := by
  induction above with
  | single step =>
    refine .single ((same _ ?_).trans step)
    rintro rfl
    exact h.acyclic _ (.single step)
  | tail above step ih =>
    refine ih.tail ((same _ ?_).trans step)
    rintro rfl
    exact h.acyclic _ (above.tail step)

/-! ## The updates -/

section Updates

variable [DecidableEq ι]

/-- Hang `x` under `p`, whose children are `ks` afterwards. -/
def link (f : Links ι) (x p : ι) (ks : List ι) : Links ι :=
  ⟨Function.update f.parent x (some p), Function.update f.kids p ks⟩

/-- Take `x` out of its parent's children. -/
def unlink (f : Links ι) (x : ι) : Links ι :=
  match f.parent x with
  | none => f
  | some p => ⟨Function.update f.parent x none, Function.update f.kids p ((f.kids p).filter (· ≠ x))⟩

/-- Let go of all children of `x`. -/
def clear (f : Links ι) (x : ι) : Links ι :=
  ⟨fun c => if c ∈ f.kids x then none else f.parent c, Function.update f.kids x []⟩

/-- Put the children of `p` in another order. -/
def reorder (f : Links ι) (p : ι) (ks : List ι) : Links ι :=
  ⟨f.parent, Function.update f.kids p ks⟩

variable {f : Links ι} {x p : ι} {ks : List ι}

theorem link_parent_of_ne {c : ι} (ne : c ≠ x) : (f.link x p ks).parent c = f.parent c :=
  update_of_ne ne _ _

@[simp] theorem link_parent_self : (f.link x p ks).parent x = some p :=
  update_self _ _ _

@[simp] theorem link_kids_self : (f.link x p ks).kids p = ks :=
  update_self _ _ _

theorem link_kids_of_ne {q : ι} (ne : q ≠ p) : (f.link x p ks).kids q = f.kids q :=
  update_of_ne ne _ _

/-- A chain of the new links is an old one, or passes the new link. -/
theorem above_link {a b : ι} (h : (f.link x p ks).Above a b) :
    f.Above a b ∨ ((a = p ∨ f.Above a p) ∧ (b = x ∨ f.Above x b)) := by
  induction h with
  | @single b step =>
    by_cases same : b = x
    · subst same
      rw [link_parent_self] at step
      exact .inr ⟨.inl (Option.some.inj step).symm, .inl rfl⟩
    rw [link_parent_of_ne same] at step
    exact .inl (.single step)
  | @tail b c _ step ih =>
    by_cases same : c = x
    · subst same
      rw [link_parent_self] at step
      obtain rfl := Option.some.inj step
      rcases ih with old | ⟨up, _⟩
      · exact .inr ⟨.inr old, .inl rfl⟩
      · exact .inr ⟨up, .inl rfl⟩
    · rw [link_parent_of_ne same] at step
      rcases ih with old | ⟨up, rfl | down⟩
      · exact .inl (old.tail step)
      · exact .inr ⟨up, .inr (.single step)⟩
      · exact .inr ⟨up, .inr (down.tail step)⟩

/-- A loose node may be hung under any node that is not in its own subtree. -/
theorem Forest.link (h : f.Forest) (loose : f.parent x = none) (ne : x ≠ p) (out : ¬ f.Above x p)
    (perm : ks.Perm (x :: f.kids p)) : (f.link x p ks).Forest where
  listed := by
    intro q c
    have fresh : c = x → c ∉ f.kids q := by
      rintro rfl member
      rw [(h.listed q c).mp member] at loose
      cases loose
    by_cases atParent : q = p
    · subst atParent
      rw [link_kids_self, perm.mem_iff]
      by_cases same : c = x
      · simp [same]
      rw [link_parent_of_ne same, ← h.listed]
      simp [same]
    · rw [link_kids_of_ne atParent]
      by_cases same : c = x
      · subst same
        rw [link_parent_self]
        constructor
        · exact fun member => absurd member (fresh rfl)
        · exact fun e => absurd (Option.some.inj e).symm atParent
      · rw [link_parent_of_ne same]
        exact h.listed q c
  once := by
    intro q
    by_cases atParent : q = p
    · subst atParent
      rw [link_kids_self, perm.nodup_iff, nodup_cons]
      refine ⟨?_, h.once q⟩
      rw [h.listed, loose]
      exact fun e => by cases e
    · rw [link_kids_of_ne atParent]
      exact h.once q
  acyclic := by
    intro a circle
    rcases above_link circle with old | ⟨rfl | up, same | down⟩
    · exact h.acyclic a old
    · exact ne same.symm
    · exact out down
    · exact out (same ▸ up)
    · exact out (down.trans up)

/-- Hung under a node of its own subtree, a loose node is above itself. -/
theorem Forest.link_circle (h : f.Forest) (inside : f.Above x p) (ks : List ι) : (f.link x p ks).Above x x :=
  (h.above_of_same (fun _ => link_parent_of_ne) inside).tail link_parent_self

theorem unlink_parent_self : (f.unlink x).parent x = none := by
  unfold unlink
  split
  · assumption
  · exact update_self _ _ _

theorem unlink_parent_of_ne {c : ι} (ne : c ≠ x) : (f.unlink x).parent c = f.parent c := by
  unfold unlink
  split
  · rfl
  · exact update_of_ne ne _ _

theorem unlink_parent_sub (c q : ι) (e : (f.unlink x).parent c = some q) : f.parent c = some q := by
  by_cases same : c = x
  · rw [same, unlink_parent_self] at e
    cases e
  · rwa [unlink_parent_of_ne same] at e

/-- In a forest `unlink` takes the node out of every list. -/
theorem Forest.unlink_kids (h : f.Forest) (q : ι) : (f.unlink x).kids q = (f.kids q).filter (· ≠ x) := by
  have absent : f.parent x ≠ some q → (f.kids q).filter (· ≠ x) = f.kids q := by
    intro elsewhere
    refine filter_eq_self.mpr ?_
    intro c member
    have : c ≠ x := by
      rintro rfl
      exact elsewhere ((h.listed q c).mp member)
    simpa using this
  unfold unlink
  split
  next loose => exact (absent (by rw [loose]; exact fun e => by cases e)).symm
  rename_i p parent
  dsimp only
  by_cases atParent : q = p
  · subst atParent
    rw [update_self]
  · rw [update_of_ne atParent, absent (by rw [parent]; exact fun e => atParent (Option.some.inj e).symm)]

theorem Forest.unlink (h : f.Forest) (x : ι) : (f.unlink x).Forest where
  listed := by
    intro q c
    rw [h.unlink_kids, mem_filter, h.listed]
    by_cases same : c = x
    · subst same
      simp [unlink_parent_self]
    · simp [unlink_parent_of_ne same, same]
  once := by
    intro q
    rw [h.unlink_kids]
    exact (h.once q).filter _
  acyclic := fun a circle => h.acyclic a (circle.mono unlink_parent_sub)

/-- The subtree of a node that is taken out stays as it is. -/
theorem Forest.above_unlink (h : f.Forest) {b : ι} : (f.unlink x).Above x b ↔ f.Above x b :=
  ⟨Above.mono unlink_parent_sub, h.above_of_same fun _ => unlink_parent_of_ne⟩

theorem Forest.clear (h : f.Forest) (x : ι) : (f.clear x).Forest where
  listed := by
    intro q c
    by_cases same : q = x
    · subst same
      simp only [Links.clear, update_self, not_mem_nil, false_iff]
      split
      · exact fun e => by cases e
      next absent => rwa [← h.listed]
    simp only [Links.clear, update_of_ne same]
    split
    next member =>
      rw [h.listed, (h.listed x c).mp member]
      simp [Ne.symm same]
    · exact h.listed q c
  once := by
    intro q
    by_cases same : q = x
    · simp [Links.clear, same]
    simp only [Links.clear, update_of_ne same]
    exact h.once q
  acyclic := by
    intro a circle
    refine h.acyclic a (circle.mono ?_)
    intro c q e
    simp only [Links.clear] at e
    split at e
    · cases e
    · exact e

theorem Forest.reorder (h : f.Forest) (perm : ks.Perm (f.kids p)) : (f.reorder p ks).Forest := by
  have perms (q : ι) : ((f.reorder p ks).kids q).Perm (f.kids q) := by
    by_cases same : q = p
    · subst same
      simpa only [Links.reorder, update_self] using perm
    · simp only [Links.reorder, update_of_ne same, Perm.refl]
  exact ⟨fun q c => (perms q).mem_iff.trans (h.listed q c), fun q => (perms q).nodup_iff.mpr (h.once q), h.acyclic⟩

end Updates

/-! ## Following the links -/

/-- No more than the nodes of `nodes` are different. -/
theorem length_le_of_nodup {seen nodes : List ι} (distinct : seen.Nodup) (sub : seen ⊆ nodes) :
    seen.length ≤ nodes.length :=
  (distinct.subperm sub).length_le

section Climb

variable [DecidableEq ι]

/-- `while let Some(p) = cur` up the parent links: is `a` met? No answer when the fuel runs out. -/
def climb (parent : ι → Option ι) (a : ι) : Nat → Option ι → Option Bool
  | 0, _ => none
  | _ + 1, none => some false
  | fuel + 1, some p => if p = a then some true else climb parent a fuel (parent p)

/-- In a forest the loop ends, and tells whether `a` is above. -/
theorem Forest.climb {f : Links ι} (h : f.Forest) {nodes : List ι}
    (within : ∀ c p, f.parent c = some p → p ∈ nodes) (a x : ι) :
    ∃ b, climb f.parent a (nodes.length + 1) (f.parent x) = some b ∧ (b = true ↔ f.Above a x) := by
  -- `seen` are the nodes passed so far, all of them below the current one
  have general : ∀ (fuel : Nat) (x : ι) (seen : List ι), seen.Nodup → seen ⊆ nodes →
      (∀ s ∈ seen, s = x ∨ f.Above x s) → nodes.length + 1 ≤ seen.length + fuel →
      ∃ b, Links.climb f.parent a fuel (f.parent x) = some b ∧ (b = true ↔ f.Above a x) := by
    intro fuel
    induction fuel with
    | zero =>
      intro x seen distinct sub _ enough
      have := length_le_of_nodup distinct sub
      omega
    | succ fuel ih =>
      intro x seen distinct sub below enough
      cases parent : f.parent x with
      | none =>
        refine ⟨false, rfl, ?_⟩
        simp only [Bool.false_eq_true, false_iff]
        intro above
        obtain ⟨_, _, last⟩ := Relation.TransGen.tail'_iff.mp above
        rw [parent] at last
        cases last
      | some p =>
        by_cases met : p = a
        · subst met
          exact ⟨true, by simp [Links.climb], iff_of_true rfl (.single parent)⟩
        have under : ∀ s ∈ seen, f.Above p s := by
          intro s member
          rcases below s member with rfl | above
          · exact .single parent
          · exact Relation.TransGen.head parent above
        obtain ⟨b, result, iff⟩ := ih p (p :: seen)
          (nodup_cons.mpr ⟨fun member => h.acyclic p (under p member), distinct⟩)
          (cons_subset.mpr ⟨within x p parent, sub⟩)
          (by
            intro s member
            rcases mem_cons.mp member with rfl | member
            · exact .inl rfl
            · exact .inr (under s member))
          (by rw [length_cons]; omega)
        refine ⟨b, by simpa [Links.climb, met] using result, iff.trans ?_⟩
        constructor
        · exact fun above => above.tail parent
        · intro above
          obtain ⟨q, up, last⟩ := Relation.TransGen.tail'_iff.mp above
          obtain rfl := Option.some.inj (parent.symm.trans last)
          rcases Relation.reflTransGen_iff_eq_or_transGen.mp up with same | more
          · exact absurd same met
          · exact more
  exact general _ x [] nodup_nil (nil_subset _) (by simp) (by simp)

end Climb

/-- A recursion over the children of `x` is at most this deep. -/
def Shallow (kids : ι → List ι) : Nat → ι → Prop
  | 0, _ => False
  | n + 1, x => ∀ c ∈ kids x, Shallow kids n c

/-- In a forest no recursion over children is deeper than there are nodes. -/
theorem Forest.shallow {f : Links ι} (h : f.Forest) {nodes : List ι}
    (within : ∀ p c, c ∈ f.kids p → c ∈ nodes) {x : ι} (node : x ∈ nodes) : Shallow f.kids (nodes.length + 1) x := by
  -- `seen` are the nodes the recursion is in, all of them above the current one
  have general : ∀ (n : Nat) (x : ι) (seen : List ι), x ∈ nodes → seen.Nodup → seen ⊆ nodes →
      (∀ s ∈ seen, f.Above s x) → nodes.length + 1 ≤ seen.length + n → Shallow f.kids n x := by
    intro n
    induction n with
    | zero =>
      intro x seen _ distinct sub _ enough
      have := length_le_of_nodup distinct sub
      omega
    | succ n ih =>
      intro x seen node distinct sub above enough c member
      have parent := (h.listed x c).mp member
      refine ih c (x :: seen) (within x c member) ?_ (cons_subset.mpr ⟨node, sub⟩) ?_ ?_
      · exact nodup_cons.mpr ⟨fun member => h.acyclic x (above x member), distinct⟩
      · intro s member
        rcases mem_cons.mp member with rfl | member
        · exact .single parent
        · exact (above s member).tail parent
      · rw [length_cons]
        omega
  exact general _ x [] node nodup_nil (nil_subset _) (by simp) (by simp)

/-- Only the children lists below `x` matter. -/
theorem Shallow.congr {kids kids' : ι → List ι} {n : Nat} {x : ι} (inside : ι → Prop) (start : inside x)
    (same : ∀ y, inside y → kids' y = kids y) (closed : ∀ y c, inside y → c ∈ kids y → inside c)
    (h : Shallow kids n x) : Shallow kids' n x := by
  induction n generalizing x with
  | zero => exact h
  | succ n ih =>
    intro c member
    rw [same x start] at member
    exact ih (closed x c start member) (h c member)

end Links

end BarryOS.Lib
