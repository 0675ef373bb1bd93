import BarryOS.Lib.Loop
import BarryOS.Lib.ParentForest

/-!
# The document arena

`Dom` of `apps/web/dom.rs`: nodes in one vector, with their parent and children as
indices, and the functions that change it. An index is always that of a node (the
scripts hold nothing else, and `dom.nodes[id]` panics otherwise), so an update at any
other index is left without effect here.

Two functions need not return. `is_ancestor` follows parent links in a loop, and
`clone_into` reads the children of a node while it adds to the same arena; they give
`none` when they are not done after as many steps as there are nodes.
-/

namespace BarryOS.Web

open Lib

inductive Kind where
  | document
  | element (name : String) (attrs : List (String × String))
  | text (t : String)
  | comment
  deriving DecidableEq, Repr

structure NodeData where
  kind : Kind
  parent : Option Nat
  children : List Nat
  deriving DecidableEq, Repr

structure Dom where
  nodes : List NodeData
  root : Nat
  deriving DecidableEq, Repr

namespace Dom

/-- `dom.nodes[id].parent`. -/
def parent (d : Dom) (id : Nat) : Option Nat := (d.nodes[id]?).bind NodeData.parent

/-- `dom.nodes[id].children`. -/
def children (d : Dom) (id : Nat) : List Nat := ((d.nodes[id]?).map NodeData.children).getD []

/-- `dom.nodes[id].kind`. -/
def kind (d : Dom) (id : Nat) : Option Kind := (d.nodes[id]?).map NodeData.kind

def tag (d : Dom) (id : Nat) : Option String :=
  match d.kind id with
  | some (.element name _) => some name
  | _ => none

def attr (d : Dom) (id : Nat) (name : String) : Option String :=
  match d.kind id with
  | some (.element _ attrs) => (attrs.find? (·.1 = name)).map Prod.snd
  | _ => none

/-- Every element with this tag name, in document order. -/
def byTag (d : Dom) (want : String) : List Nat :=
  (List.range d.nodes.length).filter fun i => d.tag i = some want

/-- An assignment to the node at `id`. -/
def modify (d : Dom) (id : Nat) (f : NodeData → NodeData) : Dom :=
  { d with nodes := d.nodes.modify id f }

/-- Append a node under `parent` and return its index. -/
def pushUnder (d : Dom) (parent : Nat) (kind : Kind) : Dom × Nat :=
  let me := d.nodes.length
  let pushed : Dom := { d with nodes := d.nodes ++ [⟨kind, some parent, []⟩] }
  (pushed.modify parent fun n => { n with children := n.children ++ [me] }, me)

def pushElement (d : Dom) (parent : Nat) (tag : String) (attrs : List (String × String)) : Dom × Nat :=
  d.pushUnder parent (.element tag attrs)

def pushText (d : Dom) (parent : Nat) (text : String) : Dom × Nat := d.pushUnder parent (.text text)

/-- The loop that lets go of the children that were drained. -/
def orphan (d : Dom) : List Nat → Dom
  | [] => d
  | c :: old => (d.modify c fun n => { n with parent := none }).orphan old

def detachChildren (d : Dom) (id : Nat) : Dom :=
  (d.modify id fun n => { n with children := [] }).orphan (d.children id)

def setTextContent (d : Dom) (id : Nat) (text : String) : Dom :=
  let d := d.detachChildren id
  if text = "" then d else (d.pushText id text).1

def setAttr (d : Dom) (id : Nat) (name value : String) : Dom :=
  d.modify id fun n =>
    match n.kind with
    | .element tag attrs =>
      let attrs :=
        match attrs.findIdx? (·.1 = name) with
        | some i => attrs.modify i fun a => (a.1, value)
        | none => attrs ++ [(name, value)]
      { n with kind := .element tag attrs }
    | _ => n

def removeAttr (d : Dom) (id : Nat) (name : String) : Dom :=
  d.modify id fun n =>
    match n.kind with
    | .element tag attrs => { n with kind := .element tag (attrs.filter (·.1 ≠ name)) }
    | _ => n

/-- Take a node out of the tree, leaving it in the arena. -/
def detach (d : Dom) (id : Nat) : Dom :=
  match d.parent id with
  | none => d
  | some parent =>
    (d.modify parent fun n => { n with children := n.children.filter (· ≠ id) }).modify id
      fun n => { n with parent := none }

/-- Is `maybeAncestor` above `id`? -/
def isAncestor (d : Dom) (maybeAncestor id : Nat) : Option Bool :=
  Links.climb d.parent maybeAncestor (d.nodes.length + 1) (d.parent id)

/-- `children.insert(at, id)` before `before`, or `children.push(id)` where that is no child. -/
def insertBefore (before : Option Nat) (id : Nat) (children : List Nat) : List Nat :=
  match before.bind fun b => children.findIdx? (· = b) with
  | some i => children.take i ++ id :: children.drop i
  | none => children ++ [id]

/-- Put a node under `parent`, before `before` (or at the end if that is `none`). -/
def insertAt (d : Dom) (id parent : Nat) (before : Option Nat) : Option Dom :=
  if id = parent then some d
  else
    match d.isAncestor parent id with
    | none => none
    | some true => some d
    | some false =>
      some (((d.detach id).modify id fun n => { n with parent := some parent }).modify parent
        fun n => { n with children := insertBefore before id n.children })

/-- Put a node under `parent`, at the end. -/
def attach (d : Dom) (id parent : Nat) : Option Dom :=
  if id = parent then some d
  else
    match d.isAncestor parent id with
    | none => none
    | some true => some d
    | some false =>
      some (((d.detach id).modify id fun n => { n with parent := some parent }).modify parent
        fun n => { n with children := n.children ++ [id] })

/-- The kind of a copy: a document is copied as a comment. -/
def copiedKind : Option Kind → Kind
  | some (.text t) => .text t
  | some (.element name attrs) => .element name attrs
  | _ => .comment

/-- Deep-copy a node of `source` and everything under it; `fuel` bounds the depth. -/
def copySubtree (source : Dom) : Nat → Nat → Dom → Nat → Option (Dom × Nat)
  | 0, _, _, _ => none
  | fuel + 1, sourceId, target, targetParent =>
    let (target, copy) := target.pushUnder targetParent (copiedKind (source.kind sourceId))
    ((source.children sourceId).foldlM
      (fun target c => (copySubtree source fuel c target copy).map Prod.fst) target).map (·, copy)

/-- A deep copy of a node and its subtree, attached under `parent`. -/
def cloneInto : Nat → Dom → Nat → Nat → Option (Dom × Nat)
  | 0, _, _, _ => none
  | fuel + 1, d, id, parent =>
    let children := d.children id
    let (d, copy) := d.pushUnder parent (copiedKind (d.kind id))
    (children.foldlM (fun d c => (cloneInto fuel d c copy).map Prod.fst) d).map (·, copy)

/-- The children with `id` taken from its place and put at `index`. -/
def moveTo (id index : Nat) (kids : List Nat) : List Nat :=
  match kids.findIdx? (· = id) with
  | none => kids
  | some pos =>
    let kids := kids.eraseIdx pos
    let index := min index kids.length
    kids.take index ++ id :: kids.drop index

/-- Move a child to a given position among its siblings. -/
def moveChildTo (d : Dom) (parent id index : Nat) : Dom :=
  d.modify parent fun n => { n with children := moveTo id index n.children }

end Dom

end BarryOS.Web
