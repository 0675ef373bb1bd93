import BarryOS.Lib.Run
import BarryOS.Web.Html

/-!
# Loading a page

The load of `apps/browser.rs`: the document, then the style sheets and scripts it names, then
its scripts are run, then the pictures, then it is laid out. Fetches go one at a time through
the HTTP client, and `tick` steps the load on when it notices that one has landed.

What the browser sees of the client is its phase and the body received so far (`Client`).
How a fetch goes is up to the network: a `poll` may bring any of the next phases, and
`http::start` may refuse an address (`Started`). The scripts of a page are run by `engine`.
Of the layout only that it happened is kept (`layouts`), and of a picture nothing, since the
load does not look at either.
-/

namespace BarryOS.Web

open Lib

/-! ## `Page` of `apps/web/mod.rs` -/

/-- The text underneath a node, with nothing skipped. In a forest the number of nodes is depth enough. -/
def Dom.collectAll (d : Dom) : Nat → Nat → Text
  | 0, _ => []
  | fuel + 1, id =>
    match d.kind id with
    | some (.text t) => t.toList
    | _ => (d.children id).flatMap (d.collectAll fuel)

def Dom.sourceText (d : Dom) (id : Nat) : String := String.ofList (d.collectAll (d.nodes.length + 1) id)

structure Page where
  dom : Dom
  scripts : List String
  scriptUrls : List String
  stylesheets : List String
  css : List String

namespace Page

def parse (html : Bytes) : Page :=
  let d := Dom.parse html
  let scripts := d.byTag "script"
  { dom := d
    scripts := (scripts.filter fun id => d.attr id "src" = none).map d.sourceText
    scriptUrls := scripts.filterMap (d.attr · "src")
    stylesheets := (d.byTag "link").filterMap fun id =>
      if eqIgnoreAsciiCase ((d.attr id "rel").getD "") "stylesheet" then d.attr id "href" else none
    css := [] }

/-- The address in the content of a `meta` element. -/
def refreshTarget (content : String) : Option Text :=
  (Text.find "url=".toList (Text.toLower content.toList)).map fun i =>
    let unquote (quote : Char) (s : Text) :=
      Text.trimEndMatches (· = quote) (Text.trimStartMatches (· = quote) s)
    unquote (Char.ofNat 0x27) (unquote (Char.ofNat 0x22) (Text.trim (content.toList.drop (i + 4))))

/-- The loop of `meta_refresh`: an element without content or without an address ends it. -/
def refreshAmong (d : Dom) : List Nat → Option String
  | [] => none
  | id :: rest =>
    if eqIgnoreAsciiCase ((d.attr id "http-equiv").getD "") "refresh" then
      match (d.attr id "content").bind refreshTarget with
      | none => none
      | some [] => refreshAmong d rest
      | some url => some (String.ofList url)
    else refreshAmong d rest

/-- A `<meta http-equiv="refresh">` target, if the page has one. -/
def metaRefresh (p : Page) : Option String := refreshAmong p.dom (p.dom.byTag "meta")

/-- Every `<img src>` in the document, in document order and without repeats. -/
def imageUrls (p : Page) : List String :=
  ((p.dom.byTag "img").filterMap (p.dom.attr · "src")).foldl (fun out src =>
      if src = "" || (Text.stripPrefix "data:" src.toList).isSome || src ∈ out then out else out ++ [src]) []

end Page

/-! ## The client -/

inductive HttpPhase where
  | idle | resolving | connecting | sending | receiving | done | failed
  deriving DecidableEq, Repr

structure Client where
  phase : HttpPhase
  body : Bytes
  deriving DecidableEq

inductive StartPhase where
  | refused | resolving | connecting
  deriving DecidableEq, Repr

/-- What `http::start` leaves behind. -/
structure Started where
  phase : StartPhase
  body : Bytes

def Started.client (a : Started) : Client :=
  ⟨match a.phase with
    | .refused => .failed
    | .resolving => .resolving
    | .connecting => .connecting, a.body⟩

inductive Stage where
  | idle | document | resources | pictures
  deriving DecidableEq, Repr

inductive ResourceKind where
  | css | script | image
  deriving DecidableEq, Repr

def maxCss : Nat := 8

def maxJs : Nat := 16

def imgMax : Nat := 12

def queueMax : Nat := maxCss + maxJs + imgMax

def subTotal : Nat := 1024 * 1024

def subCap : Nat := 192 * 1024

def pageCap : Nat := 256 * 1024

def maxUrl : Nat := 256

structure QueueEntry where
  url : String
  kind : ResourceKind
  slot : Nat

/-- The fetches of a page: `urls[..count]` with their kinds and slots, and the next one to start. -/
structure Queue where
  entries : List QueueEntry
  next : Nat
  active : Bool
  bytes : Nat
  sheets : List String
  sheetCount : Nat
  scripts : List String
  scriptCount : Nat

structure Browser where
  stage : Stage
  queue : Queue
  page : Option Page
  pendingNav : Option String
  url : String
  lastPhase : Option HttpPhase
  lastBody : Option Nat
  client : Client
  layouts : Nat

/-- Runs the scripts of a document: the document afterwards, and where they asked to go. -/
abbrev Engine := Dom → List String → String → Dom × Option String

/-! ## Addresses -/

/-- Turn a reference into something the HTTP client can fetch. -/
def resolveUrl (base href : String) : Option String :=
  let href := Text.trim href.toList
  let startsWith (front : String) := (Text.stripPrefix front href).isSome
  if href = [] || startsWith "#" || startsWith "data:" || startsWith "javascript:" || startsWith "mailto:" then
    none
  else if startsWith "http://" || startsWith "https://" then some (String.ofList href)
  else (Text.find "://".toList base.toList).map fun i =>
    let scheme := base.toList.take (i + 3)
    let rest := base.toList.drop (i + 3)
    match Text.stripPrefix "//" href with
    | some hostPath => String.ofList (scheme ++ hostPath)
    | none =>
      let host := rest.takeWhile (· ≠ '/')
      let path := rest.dropWhile (· ≠ '/')
      match Text.stripPrefix "/" href with
      | some abs => String.ofList (scheme ++ host ++ '/' :: abs)
      | none =>
        let dir := if path = [] then ['/'] else Text.trimEndMatches (· ≠ '/') path
        String.ofList (scheme ++ host ++ dir ++ href)

namespace Browser

/-- The address bar holds so many bytes, and is read back as text if it can be. -/
def setUrl (b : Browser) (url : String) : Browser :=
  let kept := (bytesOf url).take maxUrl
  { b with url := if validUtf8 kept then lossy kept else "" }

/-- Where the page is; a bare host means https. -/
def baseUrl (b : Browser) : String :=
  if (Text.find "://".toList b.url.toList).isSome then b.url
  else String.ofList ("https://".toList ++ Text.trimEndMatches (· = '/') b.url.toList ++ ['/'])

/-! ## The queue -/

/-- Add something to the fetch queue, unless it is already in it. -/
def enqueue (base href : String) (kind : ResourceKind) (slot : Nat) (q : Queue) : Option Queue :=
  match resolveUrl base href with
  | none => none
  | some url =>
    if q.entries.any (·.url = url) then none
    else if queueMax ≤ q.entries.length then none
    else some { q with entries := q.entries ++ [⟨url, kind, slot⟩] }

def enqueueSheet (base : String) (q : Queue) (href : String) : Queue :=
  if maxCss ≤ q.sheetCount then q
  else
    match enqueue base href .css q.sheetCount q with
    | some q => { q with sheetCount := q.sheetCount + 1 }
    | none => q

def enqueueScript (base : String) (q : Queue) (src : String) : Queue :=
  if maxJs ≤ q.scriptCount then q
  else
    match enqueue base src .script q.scriptCount q with
    | some q => { q with scriptCount := q.scriptCount + 1 }
    | none => q

def enqueueImage (base : String) (q : Queue) (src : String) : Queue :=
  if imgMax ≤ q.entries.length then q else (enqueue base src .image 0 q).getD q

/-- Start fetching the next thing in the queue; nothing when there is nothing left. -/
def startNext (b : Browser) (a : Started) : Option Browser :=
  if b.queue.next < b.queue.entries.length then
    some { b with
      queue := { b.queue with next := b.queue.next + 1, active := true }
      client := a.client }
  else none

/-- `Q.active = false` when the queue has run out. -/
def rest (b : Browser) : Browser := { b with queue := { b.queue with active := false } }

/-! ## The load -/

/-- Begin a page load: forget the last one and start the document fetch. -/
def startLoad (b : Browser) (a : Started) : Browser :=
  { b with
    stage := if a.phase = .refused then .idle else .document
    queue := ⟨[], 0, false, 0, List.replicate maxCss "", 0, List.replicate maxJs "", 0⟩
    page := none
    pendingNav := none
    client := a.client }

/-- Everything is in: lay the page out, and go wherever the page asked to go. -/
def layoutNow (b : Browser) (a : Started) : Browser :=
  let b := { b with stage := .idle }
  match b.page with
  | none => b
  | some _ =>
    let url := b.baseUrl
    let laid := { b with
      page := none
      pendingNav := none
      queue := { b.queue with sheets := List.replicate maxCss "", scripts := List.replicate maxJs "" }
      layouts := b.layouts + 1 }
    match b.pendingNav.bind (resolveUrl url) with
    | some target => if target ≠ url then (laid.setUrl target).startLoad a else laid
    | none => laid

/-- Everything the markup asked for has arrived: run the scripts, then find out what pictures the page
ended up with. -/
def afterResources (engine : Engine) (b : Browser) (a : Started) : Browser :=
  match b.page with
  | none => { b with stage := .idle }
  | some page =>
    let scripts := page.scripts ++ (b.queue.scripts.take b.queue.scriptCount).filter (· ≠ "")
    let outcome := engine page.dom scripts b.baseUrl
    let page := { page with
      dom := outcome.1
      css := page.css ++ (b.queue.sheets.take b.queue.sheetCount).filter (· ≠ "")
      scripts := scripts }
    let b := { b with
      page := some page
      pendingNav := outcome.2.or page.metaRefresh
      queue := page.imageUrls.foldl (enqueueImage b.baseUrl) { b.queue with entries := [], next := 0 }
      stage := .pictures }
    match b.startNext a with
    | some b => b
    | none => b.rest.layoutNow a

/-- The document has arrived: parse it, and work out what else it needs. -/
def capture (engine : Engine) (b : Browser) (a : Started) : Browser :=
  let page := Page.parse (b.client.body.take pageCap)
  let q := { b.queue with entries := [], next := 0, bytes := 0 }
  let q := page.stylesheets.foldl (enqueueSheet b.baseUrl) q
  let q := page.scriptUrls.foldl (enqueueScript b.baseUrl) q
  let b := { b with page := some page, queue := q, stage := .resources }
  match b.startNext a with
  | some b => b
  | none => b.rest.afterResources engine a

/-- The body as text, decoded in pieces. -/
def bodyText (body : Bytes) (cap : Nat) : String :=
  String.ofList (((body.take cap).toChunks 512).flatMap fun chunk => (lossy chunk).toList)

/-- Decoded as a whole exactly when no sequence goes on from one piece to the next. -/
theorem bodyText_iff (body : Bytes) (cap : Nat) : bodyText body cap = lossy (body.take cap) ↔
    ((body.take cap).toChunks 512).IsChain fun c d => ∀ x ∈ d.head?, torn c x = false := by
  obtain ⟨all, ne⟩ := toChunks_spec 512 (body.take cap)
  have pieces := decodeLossy_flatten ne
  rw [all] at pieces
  simp only [bodyText, lossy, String.toList_ofList, String.ofList_inj]
  rcases pieces with ⟨same, chain⟩ | ⟨more, torn⟩
  · exact iff_of_true same chain
  · refine iff_of_false (fun same => ?_) torn
    rw [same] at more
    exact lt_irrefl _ more

/-- A letter of two bytes, the first of which is the last one of a piece. -/
theorem bodyText_torn : ¬ ∀ body cap, bodyText body cap = lossy (body.take cap) := by
  intro all
  have same := congrArg String.toList (all (List.replicate 511 0x61 ++ [0xC3, 0xA9]) 1024)
  simp only [bodyText, lossy, String.toList_ofList] at same
  exact absurd (congrArg List.length same) (by decide +kernel)

/-- Keep the text of a style sheet or script, if there is any and it fits. -/
def keepText (q : Queue) (text : String) : Queue :=
  let size := (bytesOf text).length
  if text ≠ "" && q.bytes + size ≤ subTotal then
    let q := { q with bytes := q.bytes + size }
    match q.entries[q.next - 1]? with
    | none => q
    | some entry =>
      match entry.kind with
      | .css => { q with sheets := q.sheets.set entry.slot text }
      | .script => { q with scripts := q.scripts.set entry.slot text }
      | .image => q
  else q

/-- A stylesheet or script has arrived. -/
def subArrived (engine : Engine) (b : Browser) (a : Started) : Browser :=
  let b := { b with queue := keepText b.queue (bodyText b.client.body subCap) }
  match b.startNext a with
  | some b => b
  | none => b.rest.afterResources engine a

/-- A picture has arrived: next. -/
def pictureArrived (b : Browser) (a : Started) : Browser :=
  match b.startNext a with
  | some b => b
  | none => b.rest.layoutNow a

/-- Step the load on after a fetch lands. -/
def advance (engine : Engine) (b : Browser) (a : Started) : Browser :=
  match b.stage with
  | .idle => b
  | .document => { b with stage := .idle }.capture engine a
  | .resources => b.subArrived engine a
  | .pictures => b.pictureArrived a

/-- What the last tick saw is what there is. -/
def seen (b : Browser) : Bool :=
  b.lastPhase = some b.client.phase && b.lastBody = some b.client.body.length

/-- One pass of the input loop; `a` is what a call of `http::start` would do. -/
def tick (engine : Engine) (b : Browser) (a : Started) : Browser :=
  if b.seen then b
  else
    let b := { b with lastPhase := some b.client.phase, lastBody := some b.client.body.length }
    if b.client.phase = .done && b.stage ≠ .idle then b.advance engine a else b

end Browser

/-! ## Runs -/

inductive BrowserEvent where
  | poll (next : Client)
  | tick (a : Started)
  | visit (url : String) (a : Started)
  | fetch (a : Started)

/-- The client moves, the browser looks, a reader goes somewhere, or another program uses the client. -/
def BrowserEvent.step (engine : Engine) (b : Browser) : BrowserEvent → Browser
  | poll next => { b with client := next }
  | tick a => b.tick engine a
  | visit url a => (b.setUrl url).startLoad a
  | fetch a => { b with client := a.client }

/-- What the phase can be after a pass of `http::tick`. -/
def HttpPhase.next : HttpPhase → List HttpPhase
  | idle => [idle]
  | resolving => [resolving, connecting, failed]
  | connecting => [connecting, sending, failed]
  | sending => [sending, receiving, failed]
  | receiving => [receiving, done, failed, resolving, connecting]
  | done => [done]
  | failed => [failed]

/-- The client can do this. -/
def BrowserEvent.Possible (b : Browser) : BrowserEvent → Prop
  | poll next => next.phase ∈ b.client.phase.next
  | _ => True

instance (b : Browser) (e : BrowserEvent) : Decidable (e.Possible b) :=
  match e with
  | .poll next => inferInstanceAs (Decidable (next.phase ∈ b.client.phase.next))
  | .tick _ | .visit .. | .fetch _ => isTrue trivial

/-- A browser that has not loaded anything. -/
def Browser.start : Browser where
  stage := .idle
  queue := ⟨[], 0, false, 0, List.replicate maxCss "", 0, List.replicate maxJs "", 0⟩
  page := none
  pendingNav := none
  url := ""
  lastPhase := none
  lastBody := none
  client := ⟨.idle, []⟩
  layouts := 0

end BarryOS.Web
