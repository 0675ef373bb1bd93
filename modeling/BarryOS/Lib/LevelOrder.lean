import Mathlib.Data.List.Nodup
import Mathlib.Data.List.Perm.Subperm

/-!
# Trees and their level order

A rooted structure given by labels and lists of children is compared with another one
by unfolding both to every depth. `levelLoop` walks such a structure breadth first with
a queue of bounded size; a list in level order, with each node's parent as an index,
determines the tree it unfolds to and is determined by it (`LevelOrder.unique`).
-/

namespace BarryOS.Lib

open List

variable {ι κ α : Type}

/-! ## Unfolding -/

/-- A tree cut off at some depth. -/
inductive Branching (α : Type) where
  | cut
  | node (label : α) (children : List (Branching α))

/-- The tree below `i`, down to depth `n`. -/
def grow (label : ι → Option α) (kids : ι → List ι) : Nat → ι → Branching α
  | 0, _ => .cut
  | n + 1, i =>
    match label i with
    | none => .cut
    | some a => .node a ((kids i).map (grow label kids n))

section

variable {label : ι → Option α} {kids : ι → List ι} {label' : κ → Option α} {kids' : κ → List κ}

/-- A map that keeps labels and children keeps the unfolding. -/
theorem grow_map (f : ι → κ) (S : ι → Prop) (labels : ∀ i, S i → label' (f i) = label i)
    (children : ∀ i, S i → kids' (f i) = (kids i).map f)
    (closed : ∀ i, S i → ∀ j ∈ kids i, S j) (n : Nat) {i : ι} (hi : S i) :
    grow label' kids' n (f i) = grow label kids n i := by
  induction n generalizing i with
  | zero => rfl
  | succ n ih =>
    rw [grow, grow, labels i hi, children i hi, map_map]
    cases label i with
    | none => rfl
    | some a =>
      have same : (kids i).map (grow label' kids' n ∘ f) = (kids i).map (grow label kids n) := by
        apply map_congr_left
        intro j hj
        exact ih (closed i hi j hj)
      simp only [same]

/-- Two nodes that unfold alike have the same label and, place by place, children that
unfold alike. -/
theorem grow_children {i : ι} {j : κ}
    (same : ∀ n, grow label kids n i = grow label' kids' n j) {a b : α} (ha : label i = some a)
    (hb : label' j = some b) : a = b ∧ (kids i).length = (kids' j).length ∧
      ∀ (x y : Nat) (hx : x < (kids i).length) (hy : y < (kids' j).length), x = y →
        ∀ n, grow label kids n (kids i)[x] = grow label' kids' n (kids' j)[y] := by
  have step : ∀ n, a = b ∧ (kids i).map (grow label kids n) = (kids' j).map (grow label' kids' n) := by
    intro n
    have := same (n + 1)
    simpa only [grow, ha, hb, Branching.node.injEq] using this
  have lengths := congrArg length (step 0).2
  rw [length_map, length_map] at lengths
  refine ⟨(step 0).1, lengths, ?_⟩
  rintro x y hx hy rfl n
  have here : ((kids i).map (grow label kids n))[x]? = ((kids' j).map (grow label' kids' n))[x]? := by
    rw [(step n).2]
  simpa [hx, hy] using here

end

/-! ## Lists in level order -/

/-- A node with the place of its parent. -/
@[ext] structure Row (α : Type) where
  label : α
  parent : Nat

def labelAt (rows : List (Row α)) (i : Nat) : Option α := rows[i]?.map Row.label

/-- The parent of row `j`; the first row has none. -/
def parentAt (rows : List (Row α)) (j : Nat) : Nat := (rows[j]?.map Row.parent).getD 0

/-- The rows below `m` whose parent is `i`. -/
def kidsBelow (rows : List (Row α)) (i m : Nat) : List Nat :=
  (range m).filter fun j => j ≠ 0 ∧ parentAt rows j = i

def kidsAt (rows : List (Row α)) (i : Nat) : List Nat := kidsBelow rows i rows.length

/-- Parents come first, and in the order of their children. -/
structure LevelOrder (rows : List (Row α)) : Prop where
  nonempty : 0 < rows.length
  root : parentAt rows 0 = 0
  earlier : ∀ j, 0 < j → j < rows.length → parentAt rows j < j
  sorted : ∀ i j, 0 < i → i ≤ j → j < rows.length → parentAt rows i ≤ parentAt rows j

variable {rows : List (Row α)} {m : Nat}

/-- The children below `m` and those from there on. -/
theorem kidsBelow_split (rows : List (Row α)) (i : Nat) {n : Nat} (le : m ≤ n) : kidsBelow rows i n =
      kidsBelow rows i m ++ (range' m (n - m)).filter fun j => j ≠ 0 ∧ parentAt rows j = i := by
  obtain ⟨k, rfl⟩ := Nat.exists_eq_add_of_le le
  have joined := range'_append_1 (s := 0) (m := m) (n := k)
  rw [Nat.zero_add] at joined
  rw [kidsBelow, kidsBelow, ← filter_append, range_eq_range', range_eq_range', Nat.add_sub_cancel_left, joined]

/-- If the rows from `m` to `n` are none of `i`'s, those below `m` are all there are. -/
theorem kidsBelow_eq {i n : Nat} (le : m ≤ n) (others : ∀ j, m ≤ j → j < n → parentAt rows j ≠ i) :
    kidsBelow rows i n = kidsBelow rows i m := by
  rw [kidsBelow_split rows i le, filter_eq_nil_iff.mpr, append_nil]
  intro j hj
  have := mem_range'_1.mp hj
  simp [others j this.1 (by omega)]

theorem kidsBelow_congr {rows' : List (Row α)} (same : ∀ j < m, parentAt rows j = parentAt rows' j) (i : Nat) :
    kidsBelow rows i m = kidsBelow rows' i m := by
  apply filter_congr
  intro j hj
  rw [same j (mem_range.mp hj)]

/-- In level order row `m` is the first child of its parent that is not below `m`. -/
theorem kidsAt_split (pos : 0 < m) (lt : m < rows.length) :
    ∃ rest, kidsAt rows (parentAt rows m) = kidsBelow rows (parentAt rows m) m ++ m :: rest := by
  obtain ⟨k, hk⟩ : ∃ k, rows.length - m = k + 1 := ⟨rows.length - m - 1, by omega⟩
  rw [kidsAt, kidsBelow_split rows _ (Nat.le_of_lt lt), hk, range'_succ]
  exact ⟨_, by rw [filter_cons_of_pos (by simpa using Nat.ne_of_gt pos)]⟩

theorem mem_kidsBelow {i j : Nat} : j ∈ kidsBelow rows i m ↔ j < m ∧ j ≠ 0 ∧ parentAt rows j = i := by
  simp [kidsBelow]

theorem LevelOrder.kidsAt_eq_nil (h : LevelOrder rows) {i : Nat} (ge : rows.length ≤ i) : kidsAt rows i = [] := by
  apply eq_nil_iff_forall_not_mem.mpr
  intro j hj
  obtain ⟨lt, nonzero, parent⟩ := mem_kidsBelow.mp hj
  have := h.earlier j (Nat.pos_of_ne_zero nonzero) lt
  omega

section Unique

variable {rows rows' : List (Row α)}

/-- Rows `i` of both lists unfold to the same tree. -/
def Alike (rows rows' : List (Row α)) (i : Nat) : Prop :=
  ∀ n, grow (labelAt rows) (kidsAt rows) n i = grow (labelAt rows') (kidsAt rows') n i

theorem Alike.symm {i : Nat} (h : Alike rows rows' i) : Alike rows' rows i := fun n => (h n).symm

theorem Alike.children {i : Nat} (h : Alike rows rows' i) (lt : i < rows.length) (lt' : i < rows'.length) :
    rows[i].label = rows'[i].label ∧ (kidsAt rows i).length = (kidsAt rows' i).length ∧
      ∀ (x y : Nat) (hx : x < (kidsAt rows i).length) (hy : y < (kidsAt rows' i).length), x = y →
        ∀ n, grow (labelAt rows) (kidsAt rows) n (kidsAt rows i)[x] =
          grow (labelAt rows') (kidsAt rows') n (kidsAt rows' i)[y] :=
  grow_children h (by simp [labelAt, lt]) (by simp [labelAt, lt'])

/-- As long as the rows below `m` agree, row `m` cannot have a parent that no row from `m` on
has in the other list: that parent would have more children. -/
theorem Alike.no_extra_child (below : ∀ i < m, parentAt rows i = parentAt rows' i)
    (le' : m ≤ rows'.length) (pos : 0 < m) (lt : m < rows.length)
    (first : parentAt rows m < m) (alike : Alike rows rows' (parentAt rows m))
    (later : ∀ j, m ≤ j → j < rows'.length → parentAt rows' j ≠ parentAt rows m) : False := by
  obtain ⟨rest, hrest⟩ := kidsAt_split pos lt
  have lengths := (alike.children (Nat.lt_trans first lt) (Nat.lt_of_lt_of_le first le')).2.1
  have others : kidsAt rows' (parentAt rows m) = kidsBelow rows (parentAt rows m) m := by
    rw [kidsAt, kidsBelow_eq le' later, kidsBelow_congr below]
  rw [hrest, others] at lengths
  simp at lengths

/-- The two lists agree up to row `m`. -/
def Agree (rows rows' : List (Row α)) (m : Nat) : Prop :=
  ∀ i < m, parentAt rows i = parentAt rows' i ∧ Alike rows rows' i

theorem Agree.symm (h : Agree rows rows' m) : Agree rows' rows m :=
  fun i hi => ⟨(h i hi).1.symm, (h i hi).2.symm⟩

section

variable {m : Nat} (agree : Agree rows rows' m) (order : LevelOrder rows) (order' : LevelOrder rows') (pos : 0 < m)
  (lt : m < rows.length)

include agree order order' pos lt

theorem Agree.parent_le (le' : m ≤ rows'.length) : m < rows'.length ∧ parentAt rows' m ≤ parentAt rows m := by
  have first := order.earlier m pos lt
  have refuted := Alike.no_extra_child (fun i hi => (agree i hi).1) le' pos lt first (agree _ first).2
  rcases Nat.lt_or_ge m rows'.length with lt' | ge
  · refine ⟨lt', Nat.le_of_not_lt ?_⟩
    intro less
    refine refuted fun j hj hlt => ?_
    have := order'.sorted m j pos hj hlt
    omega
  · exact (refuted fun j hj hlt => by omega).elim

theorem Agree.step (lt' : m < rows'.length) : Agree rows rows' (m + 1) := by
  have parents : parentAt rows m = parentAt rows' m :=
    Nat.le_antisymm (agree.symm.parent_le order' order pos lt' (Nat.le_of_lt lt)).2
      (agree.parent_le order order' pos lt (Nat.le_of_lt lt')).2
  intro i hi
  rcases Nat.lt_succ_iff_lt_or_eq.mp hi with hi | rfl
  · exact agree i hi
  refine ⟨parents, ?_⟩
  -- Row `i` stands at the same place among its parent's children in both lists.
  obtain ⟨rest, split⟩ := kidsAt_split pos lt
  obtain ⟨rest', split'⟩ := kidsAt_split pos lt'
  have first := order.earlier i pos lt
  have below := kidsBelow_congr (fun j hj => (agree j hj).1) (parentAt rows i)
  rw [← parents, ← below] at split'
  have place := ((agree _ first).2.children (Nat.lt_trans first lt) (Nat.lt_trans first lt')).2.2
  have same := place (kidsBelow rows (parentAt rows i) i).length
    (kidsBelow rows (parentAt rows i) i).length (by simp [split]) (by simp [split']) rfl
  simpa [split, split', Alike] using same

end

/-- A list in level order is determined by the tree it unfolds to. -/
theorem LevelOrder.unique (order : LevelOrder rows) (order' : LevelOrder rows')
    (same : Alike rows rows' 0) : rows = rows' := by
  have agree : ∀ m, m + 1 ≤ rows.length → m + 1 ≤ rows'.length → Agree rows rows' (m + 1) := by
    intro m
    induction m with
    | zero =>
      intro _ _ i hi
      obtain rfl : i = 0 := by omega
      exact ⟨order.root.trans order'.root.symm, same⟩
    | succ m ih =>
      intro le le'
      exact (ih (by omega) (by omega)).step order order' (Nat.succ_pos m) (by omega) (by omega)
  have pos := order.nonempty
  have pos' := order'.nonempty
  have lengths : rows.length = rows'.length := by
    rcases Nat.lt_trichotomy rows.length rows'.length with lt | eq | gt
    · have all := agree (rows.length - 1) (by omega) (by omega)
      rw [Nat.sub_add_cancel pos] at all
      exact absurd (all.symm.parent_le order' order pos lt (Nat.le_refl _)).1 (Nat.lt_irrefl _)
    · exact eq
    · have all := agree (rows'.length - 1) (by omega) (by omega)
      rw [Nat.sub_add_cancel pos'] at all
      exact absurd (all.parent_le order order' pos' gt (Nat.le_refl _)).1 (Nat.lt_irrefl _)
  have all := agree (rows.length - 1) (by omega) (by omega)
  rw [Nat.sub_add_cancel pos] at all
  refine ext_getElem lengths ?_
  intro i hi hi'
  have label := ((all i hi).2.children hi hi').1
  have parent := (all i hi).1
  exact Row.ext label (by simpa [parentAt, hi, hi'] using parent)

end Unique

/-! ## Walking breadth first -/

/-- The loop: at most `n` more nodes go out, and the queue takes `cap` entries in all, of which
`tail` are used. -/
def levelLoop (kids : ι → List ι) (cap : Nat) : Nat → List ι → Nat → List ι
  | 0, _, _ => []
  | _ + 1, [], _ => []
  | n + 1, x :: queue, tail =>
    let next := (kids x).take (cap - tail)
    x :: levelLoop kids cap n (queue ++ next) (tail + next.length)

/-- Every node but the first stands behind its parent. -/
def ParentsFirst (par : ι → ι) (l : List ι) : Prop :=
  ∀ j, 0 < j → ∀ y, l[j]? = some y → ∃ i < j, l[i]? = some (par y)

theorem ParentsFirst.append {par : ι → ι} {l new : List ι} (h : ParentsFirst par l)
    (parents : ∀ y ∈ new, par y ∈ l) : ParentsFirst par (l ++ new) := by
  intro j pos y hy
  rcases Nat.lt_or_ge j l.length with lt | ge
  · rw [getElem?_append_left lt] at hy
    obtain ⟨i, hi, get⟩ := h j pos y hy
    exact ⟨i, hi, by rw [getElem?_append_left (by omega)]; exact get⟩
  rw [getElem?_append_right ge] at hy
  obtain ⟨i, hi, get⟩ := mem_iff_getElem.mp (parents y (mem_of_getElem? hy))
  exact ⟨i, by omega, by rw [getElem?_append_left hi, getElem?_eq_getElem hi, get]⟩

/-- What a complete walk puts out: the root, then the children of everything in the list. -/
structure Traversal (kids : ι → List ι) (par : ι → ι) (root : ι) (l : List ι) : Prop where
  closed : l = root :: l.flatMap kids
  nodup : l.Nodup
  parents : ∀ x ∈ l, ∀ y ∈ kids x, par y = x
  first : ParentsFirst par l

section Walk

variable {kids : ι → List ι} {par : ι → ι} {root : ι}

/-- A finite forest below the root: `used` holds of at most `cap` nodes, and a child knows its
parent. -/
structure Rooted (kids : ι → List ι) (par : ι → ι) (root : ι) (used : ι → Prop) (cap : Nat) :
    Prop where
  start : used root
  below : ∀ {x y}, used x → y ∈ kids x → used y ∧ par y = x ∧ y ≠ root
  distinct : ∀ {x}, used x → (kids x).Nodup
  few : ∀ l : List ι, l.Nodup → (∀ x ∈ l, used x) → l.length ≤ cap

/-- What the loop keeps: `out` went out and `queue` waits. -/
structure Walking (kids : ι → List ι) (par : ι → ι) (root : ι) (used : ι → Prop)
    (out queue : List ι) : Prop where
  closed : out ++ queue = root :: out.flatMap kids
  nodup : (out ++ queue).Nodup
  used : ∀ x ∈ out ++ queue, used x
  first : ParentsFirst par (out ++ queue)

section

variable {used : ι → Prop} {cap : Nat}

theorem Walking.step {out queue : List ι} {x : ι}
    (rooted : Rooted kids par root used cap) (h : Walking kids par root used out (x :: queue)) :
    Walking kids par root used (out ++ [x]) (queue ++ kids x) := by
  have regroup : out ++ [x] ++ (queue ++ kids x) = out ++ x :: queue ++ kids x := by simp
  have usedX := h.used x (by simp)
  have notOut : x ∉ out := by
    have := nodup_append.mp h.nodup
    intro hx
    exact this.2.2 x hx x (by simp) rfl
  refine ⟨?_, ?_, ?_, ?_⟩
  · rw [regroup, h.closed]
    simp
  · rw [regroup]
    refine nodup_append.mpr ⟨h.nodup, rooted.distinct usedX, ?_⟩
    rintro a ha b hb rfl
    obtain ⟨_, parent, notRoot⟩ := rooted.below usedX hb
    rw [h.closed] at ha
    rcases mem_cons.mp ha with isRoot | listed
    · exact notRoot isRoot
    -- A node that was listed before was listed by another node.
    obtain ⟨z, hz, ha⟩ := mem_flatMap.mp listed
    have other := (rooted.below (h.used z (mem_append_left _ hz)) ha).2.1
    exact notOut (by rw [← parent, other]; exact hz)
  · rw [regroup]
    intro y hy
    rcases mem_append.mp hy with hy | hy
    · exact h.used y hy
    · exact (rooted.below usedX hy).1
  · rw [regroup]
    refine h.first.append ?_
    intro y hy
    rw [(rooted.below usedX hy).2.1]
    simp

theorem Walking.traversal {out : List ι}
    (rooted : Rooted kids par root used cap) (h : Walking kids par root used out []) : Traversal kids par root out := by
  have all := h.used
  rw [append_nil] at all
  refine ⟨?_, ?_, ?_, ?_⟩
  · simpa using h.closed
  · simpa using h.nodup
  · intro x hx y hy
    exact (rooted.below (all x hx) hy).2.1
  · simpa using h.first

theorem Walking.loop (rooted : Rooted kids par root used cap)
    {n : Nat} {out queue : List ι} (h : Walking kids par root used out queue) (fuel : out.length + n = cap) :
    Traversal kids par root (out ++ levelLoop kids cap n queue (out.length + queue.length)) ∧
      ∀ x ∈ out ++ levelLoop kids cap n queue (out.length + queue.length), used x := by
  induction n generalizing out queue with
  | zero =>
    have few := rooted.few _ h.nodup h.used
    rw [length_append] at few
    obtain rfl : queue = [] := eq_nil_of_length_eq_zero (by omega)
    rw [levelLoop, append_nil]
    exact ⟨h.traversal rooted, by simpa using h.used⟩
  | succ n ih =>
    cases queue with
    | nil =>
      rw [levelLoop, append_nil]
      exact ⟨h.traversal rooted, by simpa using h.used⟩
    | cons x queue =>
      have next := h.step rooted
      have few := rooted.few _ next.nodup next.used
      simp only [length_append, length_singleton] at few
      have whole : (kids x).take (cap - (out.length + (x :: queue).length)) = kids x := by
        apply take_of_length_le
        rw [length_cons]
        omega
      have rest := ih next (by rw [length_append, length_singleton]; omega)
      have count : (out ++ [x]).length + (queue ++ kids x).length =
          out.length + (x :: queue).length + (kids x).length := by
        simp only [length_append, length_cons, length_nil]
        omega
      rw [count] at rest
      rw [levelLoop, whole]
      simpa using rest

/-- The walk from the root visits everything below it. -/
theorem levelLoop_traversal (rooted : Rooted kids par root used cap) :
    Traversal kids par root (levelLoop kids cap cap [root] 1) ∧ ∀ x ∈ levelLoop kids cap cap [root] 1, used x := by
  have start : Walking kids par root used [] [root] := by
    refine ⟨rfl, by simp, ?_, ?_⟩
    · intro x hx
      rw [nil_append, mem_singleton] at hx
      rw [hx]
      exact rooted.start
    · intro j pos y hy
      have : j < 1 := (List.getElem?_eq_some_iff.mp hy).1
      omega
  exact start.loop rooted (Nat.zero_add cap)

end

end Walk

/-! ## Numbering a walk -/

section Numbered

variable {kids : ι → List ι} {par : ι → ι} {root : ι} {l : List ι}

theorem Traversal.root_first (h : Traversal kids par root l) : l[0]? = some root := by
  rw [h.closed]
  rfl

theorem Traversal.not_root (h : Traversal kids par root l) {j : Nat} (pos : 0 < j) {y : ι}
    (hy : l[j]? = some y) : y ≠ root := by
  rintro rfl
  obtain ⟨hj, get⟩ := List.getElem?_eq_some_iff.mp hy
  obtain ⟨h0, get0⟩ := List.getElem?_eq_some_iff.mp h.root_first
  have same : j = 0 := h.nodup.getElem_inj_iff.mp (get.trans get0.symm)
  omega

variable [DecidableEq ι]

/-- The rows of a walk: each node with the place of its parent. -/
def numbered (label : ι → α) (par : ι → ι) (root : ι) (l : List ι) : List (Row α) :=
  l.map fun x => ⟨label x, if x = root then 0 else l.idxOf (par x)⟩

@[simp] theorem numbered_length (label : ι → α) (par : ι → ι) (root : ι) (l : List ι) :
    (numbered label par root l).length = l.length := length_map _

section

variable (h : Traversal kids par root l)

include h

variable (label : ι → α)

theorem Traversal.parentAt_numbered {j : Nat} (pos : 0 < j) {y : ι} (hy : l[j]? = some y) :
    parentAt (numbered label par root l) j = l.idxOf (par y) := by
  simp [parentAt, numbered, hy, h.not_root pos hy]

theorem Traversal.earlier {j : Nat} (pos : 0 < j) {y : ι} (hy : l[j]? = some y) : l.idxOf (par y) < j := by
  obtain ⟨i, hi, get⟩ := h.first j pos y hy
  obtain ⟨hlt, get⟩ := List.getElem?_eq_some_iff.mp get
  rw [← get, h.nodup.idxOf_getElem]
  exact hi

theorem Traversal.sorted : (l.flatMap kids).Pairwise fun a b => l.idxOf (par a) ≤ l.idxOf (par b) := by
  rw [pairwise_flatMap]
  constructor
  · intro x hx
    refine pairwise_iff_forall_sublist.mpr ?_
    intro a b sub
    have ha := h.parents x hx a (sub.subset (by simp))
    have hb := h.parents x hx b (sub.subset (by simp))
    exact Nat.le_of_eq (by rw [ha, hb])
  · rw [pairwise_iff_getElem]
    intro i j hi hj lt a ha b hb
    rw [h.parents _ (getElem_mem hi) a ha, h.parents _ (getElem_mem hj) b hb,
      h.nodup.idxOf_getElem, h.nodup.idxOf_getElem]
    exact Nat.le_of_lt lt

theorem Traversal.levelOrder : LevelOrder (numbered label par root l) := by
  have start := h.root_first
  refine ⟨?_, ?_, ?_, ?_⟩
  · rw [numbered_length]
    exact (List.getElem?_eq_some_iff.mp start).1
  · simp [parentAt, numbered, start]
  · intro j pos lt
    rw [numbered_length] at lt
    have hy := getElem?_eq_getElem lt
    rw [h.parentAt_numbered label pos hy]
    exact h.earlier pos hy
  · intro i j pos le lt
    rw [numbered_length] at lt
    have lti := Nat.lt_of_le_of_lt le lt
    have hi := getElem?_eq_getElem lti
    have hj := getElem?_eq_getElem lt
    rw [h.parentAt_numbered label pos hi, h.parentAt_numbered label (by omega) hj]
    rcases Nat.eq_or_lt_of_le le with rfl | less
    · exact Nat.le_refl _
    have sorted := pairwise_iff_getElem.mp h.sorted (i - 1) (j - 1)
    have shift : ∀ k (hk : 0 < k) (hl : k < l.length),
        ∃ ht : k - 1 < (l.flatMap kids).length, l[k] = (l.flatMap kids)[k - 1] := by
      intro k hk hl
      have get : l[k]? = (l.flatMap kids)[k - 1]? := by
        rw [h.closed]
        obtain ⟨k, rfl⟩ : ∃ m, k = m + 1 := ⟨k - 1, by omega⟩
        rw [getElem?_cons_succ, ← h.closed, Nat.add_sub_cancel]
      rw [getElem?_eq_getElem hl] at get
      obtain ⟨ht, e⟩ := List.getElem?_eq_some_iff.mp get.symm
      exact ⟨ht, e.symm⟩
    obtain ⟨hi', ei⟩ := shift i pos lti
    obtain ⟨hj', ej⟩ := shift j (by omega) lt
    rw [ei, ej]
    exact sorted hi' hj' (by omega)

/-- The children of a node are the nodes of the list whose parent it is. -/
theorem Traversal.kids_eq {x : ι} (hx : x ∈ l) : l.filter (fun y => y ≠ root ∧ par y = x) = kids x := by
  have isKid : ∀ z ∈ l, ∀ y ∈ kids z, y ≠ root := by
    intro z hz y hy
    have listed : y ∈ l.flatMap kids := mem_flatMap.mpr ⟨z, hz, hy⟩
    have nodup := h.nodup
    rw [h.closed] at nodup
    rintro rfl
    exact (nodup_cons.mp nodup).1 listed
  have each : ∀ z ∈ l, (kids z).filter (fun y => y ≠ root ∧ par y = x) = if z = x then kids z else [] := by
    intro z hz
    split
    next here =>
      apply filter_eq_self.mpr
      intro y hy
      simp [isKid z hz y hy, h.parents z hz y hy, here]
    next other =>
      apply filter_eq_nil_iff.mpr
      intro y hy
      simp [h.parents z hz y hy, other]
  have whole : l.filter (fun y => y ≠ root ∧ par y = x) = l.flatMap fun z => if z = x then kids z else [] := by
    rw [← flatMap_congr each, ← filter_flatMap]
    conv_lhs => rw [h.closed]
    rw [filter_cons_of_neg (by simp)]
  obtain ⟨before, after, rfl⟩ := append_of_mem hx
  have nodup := nodup_append.mp h.nodup
  have elsewhere : ∀ part : List ι, x ∉ part → (part.flatMap fun z => if z = x then kids z else []) = [] := by
    intro part absent
    apply flatMap_eq_nil_iff.mpr
    intro z hz
    rw [if_neg]
    rintro rfl
    exact absent hz
  rw [whole, flatMap_append, flatMap_cons, elsewhere before (fun hb => nodup.2.2 x hb x (by simp) rfl),
    elsewhere after (nodup_cons.mp nodup.2.1).1]
  simp

/-- The children of a row are the rows of the children. -/
theorem Traversal.kidsAt_numbered {i : Nat} {x : ι} (hx : l[i]? = some x) :
    (kidsAt (numbered label par root l) i).map (fun j => l.getD j root) = kids x := by
  obtain ⟨hi, rfl⟩ := List.getElem?_eq_some_iff.mp hx
  have getD : ∀ {j} (hj : j < l.length), l.getD j root = l[j] := by
    intro j hj
    simp [hj]
  have all : (range l.length).map (fun j => l.getD j root) = l := by
    apply ext_getElem
    · simp
    · intro j _ hj
      simp [hj]
  have chosen : ∀ j ∈ range l.length, decide (j ≠ 0 ∧ parentAt (numbered label par root l) j = i) =
        ((fun y => decide (y ≠ root ∧ par y = l[i])) ∘ fun j => l.getD j root) j := by
    intro j hj
    have hj := mem_range.mp hj
    rw [Function.comp, decide_eq_decide, getD hj]
    rcases Nat.eq_zero_or_pos j with rfl | pos
    · have start := h.root_first
      rw [getElem?_eq_getElem hj] at start
      simp [Option.some.inj start]
    have get := getElem?_eq_getElem hj
    obtain ⟨k, hk, parent⟩ := h.first j pos _ get
    obtain ⟨hkl, parent⟩ := List.getElem?_eq_some_iff.mp parent
    rw [h.parentAt_numbered label pos get, ← parent, h.nodup.idxOf_getElem]
    simp only [Nat.ne_of_gt pos, h.not_root pos get, ne_eq, not_false_eq_true, true_and]
    exact (h.nodup.getElem_inj_iff).symm
  rw [kidsAt, kidsBelow, numbered_length, filter_congr chosen, ← filter_map, all, h.kids_eq (getElem_mem hi)]

/-- The rows unfold to the tree that was walked. -/
theorem Traversal.grow_numbered {label : ι → Option α}
    {lab : ι → α} (labels : ∀ x ∈ l, label x = some (lab x)) (n : Nat) : grow label kids n root =
      grow (labelAt (numbered lab par root l)) (kidsAt (numbered lab par root l)) n 0 := by
  have start := h.root_first
  have at0 : l.getD 0 root = root := by simp [start]
  have getD : ∀ {i} (hi : i < l.length), l.getD i root = l[i] := by
    intro i hi
    simp [hi]
  conv_lhs => rw [← at0]
  refine grow_map (fun i => l.getD i root) (fun i => i < l.length) ?_ ?_ ?_ n (List.getElem?_eq_some_iff.mp start).1
  · intro i hi
    rw [getD hi, labels _ (getElem_mem hi)]
    simp [labelAt, numbered, hi]
  · intro i hi
    rw [getD hi, h.kidsAt_numbered lab (getElem?_eq_getElem hi)]
  · intro i _ j hj
    rw [kidsAt, kidsBelow, mem_filter, numbered_length] at hj
    exact mem_range.mp hj.1

end

end Numbered

end BarryOS.Lib
