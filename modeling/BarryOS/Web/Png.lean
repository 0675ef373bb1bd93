import BarryOS.Lib.Bytes
import Mathlib.Algebra.Order.Floor.Div
import Mathlib.Data.List.MinMax

/-!
# PNG rows

The part of `apps/web/img/png.rs` behind the inflated stream: a pass takes the stream apart
into rows and undoes the filter of each row in place. What `emit` draws of a row depends on the
row alone, so a pass is given by the rows it restores. The sides of a picture are 32 bits wide
(`be32`), so no row is longer than a word can say.

What an encoder does is stated in the format's own terms: how many octets a row and a pixel take, and
what each filter predicts from the neighbours. The code computes the same numbers in its own way.
-/

namespace BarryOS.Web.Png

open Lib List

structure Header where
  w : Nat
  h : Nat
  depth : UInt8
  color : UInt8
  interlace : UInt8

namespace Header

variable (head : Header)

def channels : Nat :=
  match head.color with
  | 0 | 3 => 1
  | 2 => 3
  | 4 => 2
  | _ => 4

def bitsPerPixel : Nat := head.channels * head.depth.toNat

def filterStep : Nat := (head.bitsPerPixel + 7) / 8

/-- The bytes of `w` pixels, without the filter byte before them. -/
def stride (w : Nat) : Nat := (w * head.bitsPerPixel + 7) / 8

end Header

def depthOk (color depth : UInt8) : Bool :=
  match color with
  | 0 => depth ∈ [1, 2, 4, 8, 16]
  | 3 => depth ∈ [1, 2, 4, 8]
  | 2 | 4 | 6 => depth ∈ [8, 16]
  | _ => false

/-- The loop of the filters: each byte from `start` on grows by what is predicted for it. -/
def restore (pred : Bytes → Nat → UInt8) (start : Nat) (cur : Bytes) : Bytes :=
  (range' start (cur.length - start)).foldl (fun cur i => cur.set i (octet cur i + pred cur i)) cur

/-- The byte a pixel to the left of byte `i`, 0 in the first pixel. -/
def before (step : Nat) (row : Bytes) (i : Nat) : UInt8 :=
  if i ≥ step then octet row (i - step) else 0

def average (left up : UInt8) : UInt8 := .ofNat ((left.toNat + up.toNat) / 2)

def paeth (left up upleft : UInt8) : UInt8 :=
  let p : Int := left.toNat + up.toNat - upleft.toNat
  let pa := (p - left.toNat).natAbs
  let pb := (p - up.toNat).natAbs
  let pc := (p - upleft.toNat).natAbs
  if pa ≤ pb ∧ pa ≤ pc then left else if pb ≤ pc then up else upleft

def unfilterRow (filter : UInt8) (cur prev : Bytes) (step : Nat) : Except String Bytes :=
  match filter with
  | 0 => .ok cur
  | 1 => .ok (restore (fun cur i => octet cur (i - step)) step cur)
  | 2 => .ok (restore (fun _ i => octet prev i) 0 cur)
  | 3 => .ok (restore (fun cur i => average (before step cur i) (octet prev i)) 0 cur)
  | 4 => .ok (restore (fun cur i => paeth (before step cur i) (octet prev i) (before step prev i)) 0 cur)
  | _ => .error "a PNG row filter that is not one of the five"

/-- The loop of `unfilter_pass`: the next `n` rows, below `prev`. -/
def unfilterRows (head : Header) (raw : Bytes) (stride : Nat) :
    (n : Nat) → (prev : Bytes) → (here : Nat) → Except String (Nat × List Bytes)
  | 0, _, here => .ok (here, [])
  | n + 1, prev, here =>
    if here + 1 + stride > raw.length then .error "a PNG whose pixel data stops early"
    else do
      let cur ← unfilterRow (octet raw here) (slice raw (here + 1) (here + 1 + stride)) prev head.filterStep
      let (here, rows) ← unfilterRows head raw stride n cur (here + 1 + stride)
      .ok (here, cur :: rows)

def unfilterPass (head : Header) (raw : Bytes) (here pw ph : Nat) : Except String (Nat × List Bytes) :=
  unfilterRows head raw (head.stride pw) ph (zeros (head.stride pw)) here

/-! ## The format -/

/-- The samples of a pixel. A colour type is a sum of 1 for a palette, 2 for colour and 4 for alpha. -/
def samples (color : UInt8) : Nat :=
  if color &&& 1 ≠ 0 then 1
  else (if color &&& 2 ≠ 0 then 3 else 1) + if color &&& 4 ≠ 0 then 1 else 0

/-- Rows begin at an octet. -/
def rowLength (head : Header) (w : Nat) : Nat := (w * (samples head.color * head.depth.toNat)) ⌈/⌉ 8

/-- The whole octets of a pixel, one if it is smaller. -/
def pixelLength (head : Header) : Nat := max 1 (samples head.color * head.depth.toNat / 8)

/-- Of the three neighbours the first that comes closest to `a + b - c`. -/
def closest (a b c : Nat) : Nat := ([a, b, c].argmin fun v : Nat => ((a : Int) + b - c - v).natAbs).getD a

/-- The filter types of the format. -/
inductive Filter where
  | none | sub | up | average | paeth
  deriving DecidableEq

namespace Filter

def code : Filter → UInt8
  | none => 0
  | sub => 1
  | up => 2
  | average => 3
  | paeth => 4

/-- What stands to the left, above, and above to the left. -/
def predict : Filter → (a b c : Nat) → Nat
  | none, _, _, _ => 0
  | sub, a, _, _ => a
  | up, _, b, _ => b
  | average, a, b, _ => (a + b) / 2
  | paeth, a, b, c => closest a b c

/-- An encoder's row: each octet modulo 256 less what is predicted for it, with zeros in front of a row. -/
def encodeRow (f : Filter) (pixel : Nat) (prev row : Bytes) : Bytes :=
  octets row.length fun i => octet row i - .ofNat (f.predict (octet (zeros pixel ++ row) i).toNat (octet prev i).toNat
    (octet (zeros pixel ++ prev) i).toNat)

end Filter

/-- The stream of a pass, each row behind its filter byte. -/
def encodeRows (pixel : Nat) : Bytes → List (Filter × Bytes) → Bytes
  | _, [] => []
  | prev, (f, row) :: rows => f.code :: f.encodeRow pixel prev row ++ encodeRows pixel row rows

/-! ## The code's numbers are the format's -/

theorem depthOk_listed {color depth : UInt8} (accepted : depthOk color depth) :
    color ∈ [0, 2, 3, 4, 6] ∧ depth ∈ [1, 2, 4, 8, 16] := by
  unfold depthOk at accepted
  split at accepted <;> grind

theorem Header.channels_eq {head : Header} (accepted : depthOk head.color head.depth) :
    head.channels = samples head.color := by
  have listed := (depthOk_listed accepted).1
  show Header.channels ⟨0, 0, 0, head.color, 0⟩ = samples head.color
  generalize head.color = color at listed
  simp only [mem_cons, not_mem_nil, or_false] at listed
  rcases listed with rfl | rfl | rfl | rfl | rfl <;> decide

theorem Header.stride_eq {head : Header} (accepted : depthOk head.color head.depth) (w : Nat) :
    head.stride w = rowLength head w := by
  rw [rowLength, Nat.ceilDiv_eq_add_pred_div, ← Header.channels_eq accepted]
  rfl

/-- The pixels of an accepted type take at most an octet, or whole octets. -/
theorem Header.filterStep_eq {head : Header} (accepted : depthOk head.color head.depth) :
    head.filterStep = pixelLength head := by
  have ⟨listed, deep⟩ := depthOk_listed accepted
  show Header.filterStep ⟨0, 0, head.depth, head.color, 0⟩ = pixelLength ⟨0, 0, head.depth, head.color, 0⟩
  revert accepted
  generalize head.color = color, head.depth = depth at listed deep ⊢
  simp only [mem_cons, not_mem_nil, or_false] at listed deep
  rcases listed with rfl | rfl | rfl | rfl | rfl <;> rcases deep with rfl | rfl | rfl | rfl | rfl <;> decide

theorem before_eq (step : Nat) (row : Bytes) (i : Nat) : before step row i = octet (zeros step ++ row) i := by
  unfold before octet zeros
  rw [getD_eq_getElem?_getD, getD_eq_getElem?_getD, getElem?_append, length_replicate]
  split
  · rw [if_neg (by omega)]
  · rw [if_pos (by omega), getElem?_replicate_of_lt (by omega), Option.getD_some]

theorem argmin_three (f : Nat → Nat) (a b c : Nat) : [a, b, c].argmin f =
    some (if f a ≤ f b ∧ f a ≤ f c then a else if f b ≤ f c then b else c) := by
  rw [argmin_cons, argmin_cons, argmin_singleton]
  by_cases last : f c < f b
  · simp only [if_pos last]
    split_ifs <;> first | rfl | omega
  · simp only [if_neg last]
    split_ifs <;> first | rfl | omega

theorem paeth_eq (left up upleft : UInt8) :
    paeth left up upleft = .ofNat (closest left.toNat up.toNat upleft.toNat) := by
  unfold paeth closest
  rw [argmin_three, Option.getD_some, apply_ite UInt8.ofNat, apply_ite UInt8.ofNat]
  simp only [UInt8.ofNat_toNat]

/-! ## Filtered rows are restored -/

/-- A loop that has restored `row` up to `start`, and predicts each byte from those before it,
restores all of it. -/
theorem restore_eq {pred : Bytes → Nat → UInt8} {row cur : Bytes} {start : Nat}
    (reads : ∀ cur, ∀ i ≥ start, (∀ j < i, octet cur j = octet row j) → pred cur i = pred row i)
    (length : cur.length = row.length) (done : ∀ i < start, octet cur i = octet row i)
    (rest : ∀ i ≥ start, i < row.length → octet cur i + pred row i = octet row i) :
    restore pred start cur = row := by
  unfold restore
  generalize count : cur.length - start = n
  induction n generalizing start cur with
  | zero =>
    refine (ext_getElem length fun i inside inside' => ?_ : cur = row)
    simpa only [octet_eq_getElem, inside, inside'] using done i (by omega)
  | succ n ih =>
    have here := rest start le_rfl (by omega)
    have octet_set (v : UInt8) (i : Nat) : octet (cur.set start v) i = if start = i then v else octet cur i := by
      grind [octet]
    rw [range'_succ, foldl_cons, reads cur start le_rfl done, here]
    refine ih (fun cur i later => reads cur i (by omega)) (by simpa) (fun i below => ?_) (fun i above inside => ?_)
      (by simp; omega)
    all_goals rw [octet_set]
    · split
      · next same => rw [same]
      · exact done i (by omega)
    · rw [if_neg (by omega)]
      exact rest i (by omega) inside

theorem Filter.unfilterRow_encodeRow (f : Filter) {step : Nat} (pos : 0 < step) (prev row : Bytes) :
    unfilterRow f.code (f.encodeRow step prev row) prev step = .ok row := by
  have length : (f.encodeRow step prev row).length = row.length := octets_length ..
  have encoded (i : Nat) (inside : i < row.length) : octet (f.encodeRow step prev row) i +
      .ofNat (f.predict (before step row i).toNat (octet prev i).toNat (before step prev i).toNat) = octet row i := by
    rw [octet_eq_getElem (by omega), before_eq, before_eq]
    simp [encodeRow, octets]
  have reads (cur : Bytes) (i : Nat) (same : ∀ j < i, octet cur j = octet row j) :
      before step cur i = before step row i := by
    unfold before
    split
    · exact same (i - step) (by omega)
    · rfl
  cases f with
  | none =>
    refine congrArg Except.ok (ext_getElem length fun i inside inside' => ?_)
    simpa [octet_eq_getElem, inside, inside', predict] using encoded i inside'
  | sub =>
    -- the loop skips the first pixel, whose prediction is 0
    refine congrArg Except.ok (restore_eq (fun cur i later same => same _ (by omega)) length
      (fun i first => ?_) fun i later inside => ?_)
    · by_cases inside : i < row.length
      · simpa [predict, before, Nat.not_le_of_lt first] using encoded i inside
      · simp [octet, length, inside]
    · simpa [predict, before, if_pos later] using encoded i inside
  | up =>
    refine congrArg Except.ok (restore_eq (fun _ _ _ _ => rfl) length (by simp) fun i _ inside => ?_)
    simpa [predict] using encoded i inside
  | average =>
    refine congrArg Except.ok (restore_eq (fun cur i _ same => ?_) length (by simp) fun i _ => encoded i)
    rw [reads cur i same]
  | paeth =>
    refine congrArg Except.ok (restore_eq (fun cur i _ same => ?_) length (by simp) fun i _ inside => ?_)
    · rw [reads cur i same]
    · rw [paeth_eq]
      exact encoded i inside

/-- A row whose filter can be undone is restored, and the loop goes on behind it. -/
theorem unfilterRows_succ {head : Header} {filter : UInt8} {code prev cur : Bytes}
    (restored : unfilterRow filter code prev head.filterStep = .ok cur) (front rest : Bytes) (n : Nat) :
    unfilterRows head (front ++ filter :: code ++ rest) code.length (n + 1) prev front.length = (do
      let (here, rows) ← unfilterRows head (front ++ filter :: code ++ rest) code.length n cur
        (front ++ filter :: code).length
      .ok (here, cur :: rows)) := by
  have body : slice (front ++ filter :: code ++ rest) (front.length + 1) (front.length + 1 + code.length) = code := by
    simp [slice]
  have first : octet (front ++ filter :: code ++ rest) front.length = filter := by
    simp [octet]
  have next : (front ++ filter :: code).length = front.length + 1 + code.length := by
    simp only [length_append, length_cons]
    omega
  rw [unfilterRows, if_neg (by rw [length_append]; omega), first, body, restored, next]
  rfl

theorem unfilterRows_encodeRows {head : Header} (pos : 0 < head.filterStep) {stride : Nat}
    {rows : List (Filter × Bytes)} (width : ∀ r ∈ rows, r.2.length = stride) (front back prev : Bytes) :
    unfilterRows head (front ++ encodeRows head.filterStep prev rows ++ back) stride rows.length prev
      front.length = .ok (front.length + rows.length * (stride + 1), rows.map (·.2)) := by
  induction rows generalizing front prev with
  | nil => simp [unfilterRows]
  | cons r rows ih =>
    obtain ⟨f, row⟩ := r
    have long : (f.encodeRow head.filterStep prev row).length = stride :=
      (octets_length ..).trans (width _ (mem_cons_self ..))
    have restored := f.unfilterRow_encodeRow pos prev row
    have step := unfilterRows_succ restored front (encodeRows head.filterStep row rows ++ back) rows.length
    rw [long, ← append_assoc, ih fun r member => width r (mem_cons_of_mem _ member)] at step
    simp only [encodeRows, ← append_assoc]
    refine step.trans (congrArg Except.ok (Prod.ext ?_ rfl))
    simp only [length_append, length_cons, Nat.succ_mul]
    omega

/-- The rows of a pass come back as they were, whichever filter each was encoded with. -/
theorem unfilterPass_encodeRows {head : Header} (accepted : depthOk head.color head.depth) (pw : Nat)
    (rows : List (Filter × Bytes)) (width : ∀ r ∈ rows, r.2.length = rowLength head pw) (front back : Bytes) :
    unfilterPass head (front ++ encodeRows (pixelLength head) (zeros (rowLength head pw)) rows ++ back)
        front.length pw rows.length =
      .ok (front.length + rows.length * (rowLength head pw + 1), rows.map (·.2)) := by
  have pos : 0 < head.filterStep := by
    rw [Header.filterStep_eq accepted]
    exact Nat.le_max_left 1 _
  rw [unfilterPass, Header.stride_eq accepted, ← Header.filterStep_eq accepted]
  exact unfilterRows_encodeRows pos width front back _

theorem unfilterPass_encodeRows_gray : unfilterPass ⟨2, 2, 8, 0, 0⟩
    ([1] ++ encodeRows 1 [0, 0] [(.average, [7, 9]), (.paeth, [3, 255])] ++ []) 1 2 2 = .ok (7, [[7, 9], [3, 255]]) :=
  unfilterPass_encodeRows (by decide) 2 [(.average, [7, 9]), (.paeth, [3, 255])] (by decide) [1] []

end BarryOS.Web.Png
