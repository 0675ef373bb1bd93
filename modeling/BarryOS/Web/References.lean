import BarryOS.Web.Browser
import Mathlib.Data.List.DropRight

/-!
# What a reference refers to

The references of a page are to be read against the address it finally came from, which is up to
the network: against its scheme, its host with the port, and its directory (`Url.resolve`). `base_url`
reads the address bar instead, which a clicked link and a redirect leave as it was and the keys
change, and `resolve_url` takes the last slash in it for the end of the directory, be it one of a query.
-/

namespace BarryOS.Web

open Lib List

/-- Nothing stands before the first slash of a path. -/
def FromRoot (path : Text) : Prop := path.dropWhile (· ≠ '/') = path

/-- A path up to its last slash. -/
def directoryOf (path : Text) : Text := if path = [] then ['/'] else Text.trimEndMatches (· ≠ '/') path

/-- An address, without its query and fragment. -/
structure Url where
  scheme : Text
  authority : Text
  path : Text
  noColon : ':' ∉ scheme
  noSlash : '/' ∉ authority
  rooted : FromRoot path
  plain : '?' ∉ path ∧ '#' ∉ path

/-- A reference without a scheme, and not a fragment of the page itself. -/
def Relative (t : Text) : Prop :=
  t ≠ [] ∧ t.head? ≠ some '#' ∧ ':' ∉ t.takeWhile fun c => c ≠ '/' && c ≠ '?' && c ≠ '#'

instance (t : Text) : Decidable (Relative t) := inferInstanceAs (Decidable (_ ∧ _))

/-- What such a reference means, on a page of this scheme, host and directory. -/
def refer (scheme host directory t : Text) : String :=
  String.ofList (if ['/', '/'] <+: t then scheme ++ t.drop 2
    else if ['/'] <+: t then scheme ++ host ++ t
    else scheme ++ host ++ directory ++ t)

namespace Url

def front (u : Url) : Text := u.scheme ++ "://".toList

def resolve (u : Url) (t : Text) : String := refer u.front u.authority (directoryOf u.path) t

/-- The text is the address as far as its directory goes. -/
def Shown (u : Url) (text : Text) : Prop :=
  ∃ path, text = u.front ++ u.authority ++ path ∧ FromRoot path ∧ directoryOf path = directoryOf u.path

end Url

/-! ## The address bar -/

/-- The text of the bar as an address; a host alone is one of https. -/
def inFull (bar : Text) : Text :=
  if (Text.find "://".toList bar).isSome then bar else "https://".toList ++ Text.trimEndMatches (· = '/') bar ++ ['/']

theorem toList_baseUrl (b : Browser) : b.baseUrl.toList = inFull b.url.toList := by
  unfold Browser.baseUrl inFull
  split
  · rfl
  · exact String.toList_ofList

/-- A browser, and where the page that it shows came from. -/
structure Tab where
  browser : Browser := .start
  page : Option Url := none

/-- The bar is edited; or a page is loaded, from where the network takes the request to: its address
was typed, a link was clicked, the address is one of the history or of another program, or the page
before asked for it. -/
inductive TabEvent where
  | edit (text : String)
  | typed (text : String) (arrives : String → Url)
  | clicked (href : String) (arrives : String → Url)
  | opened (url : String) (arrives : String → Url)
  | asked (target : String) (arrives : String → Url)

namespace Tab

def setUrl (t : Tab) (url : String) : Tab := { t with browser := t.browser.setUrl url }

def load (t : Tab) (url : String) (arrives : String → Url) : Tab :=
  if url = "" then t else { t with page := some (arrives url) }

def step (t : Tab) : TabEvent → Tab
  | .edit text => t.setUrl text
  | .typed text arrives => (t.setUrl text).load (lossy ((bytesOf text).take maxUrl)) arrives
  | .clicked href arrives =>
    match resolveUrl t.browser.baseUrl href with
    | some url => t.load url arrives
    | none => t
  | .opened url arrives => (t.setUrl url).load url arrives
  | .asked target arrives =>
    match resolveUrl t.browser.baseUrl target with
    | some url => if url ≠ t.browser.baseUrl then (t.setUrl url).load url arrives else t
    | none => t

/-- Every relative reference on the page is read against the address of the page. -/
def Resolves (t : Tab) : Prop :=
  ∀ u ∈ t.page, ∀ href : String, Relative (Text.trim href.toList) →
    resolveUrl t.browser.baseUrl href = some (u.resolve (Text.trim href.toList))

/-- The bar shows the address of the page. -/
def Shows (t : Tab) : Prop := ∀ u ∈ t.page, u.Shown (inFull t.browser.url.toList)

/-- The page that a load brings is the one in the bar. -/
def Lands (t : Tab) (url : String) (arrives : String → Url) : Prop :=
  if url = "" then t.Shows else (arrives url).Shown (inFull t.browser.url.toList)

/-- An edit still shows the page; a page comes from the address that was typed, opened or asked for; one
behind a link comes from the directory in the bar, which stays. -/
def Keeps (t : Tab) : TabEvent → Prop
  | .edit text => (t.setUrl text).Shows
  | .typed text arrives => (t.setUrl text).Lands (lossy ((bytesOf text).take maxUrl)) arrives
  | .clicked href arrives => ∀ url ∈ resolveUrl t.browser.baseUrl href, t.Lands url arrives
  | .opened url arrives => (t.setUrl url).Lands url arrives
  | .asked target arrives =>
    ∀ url ∈ resolveUrl t.browser.baseUrl target, url ≠ t.browser.baseUrl → (t.setUrl url).Lands url arrives

theorem load_shows (t : Tab) (url : String) (arrives : String → Url) :
    (t.load url arrives).Shows ↔ t.Lands url arrives := by
  unfold load Lands
  split <;> simp [Shows]

theorem step_shows {t : Tab} (shows : t.Shows) (e : TabEvent) : (t.step e).Shows ↔ t.Keeps e := by
  cases e with
  | edit text => rfl
  | typed text arrives => exact load_shows ..
  | clicked href arrives =>
    cases found : resolveUrl t.browser.baseUrl href <;> simp [step, Keeps, found, shows, load_shows]
  | opened url arrives => exact load_shows ..
  | asked target arrives =>
    cases found : resolveUrl t.browser.baseUrl target with
    | none => simp [step, Keeps, found, shows]
    | some url => by_cases same : url = t.browser.baseUrl <;> simp [step, Keeps, found, same, shows, load_shows]

end Tab

/-! ## Reading the bar -/

theorem Text.find_scheme {scheme : Text} (noColon : ':' ∉ scheme) (rest : Text) :
    Text.find "://".toList (scheme ++ "://".toList ++ rest) = some scheme.length := by
  induction scheme with
  | nil => rfl
  | cons c s ih =>
    rw [mem_cons, not_or] at noColon
    have other : "://".toList.isPrefixOf (c :: (s ++ "://".toList ++ rest)) = false := by
      simp [isPrefixOf, noColon.1]
    rw [cons_append, cons_append, Text.find, other, ih noColon.2]
    rfl

theorem resolveUrl_relative (base : String) {href : String} (relative : Relative (Text.trim href.toList)) :
    resolveUrl base href = (Text.find "://".toList base.toList).map fun i =>
      refer (base.toList.take (i + 3)) ((base.toList.drop (i + 3)).takeWhile (· ≠ '/'))
        (directoryOf ((base.toList.drop (i + 3)).dropWhile (· ≠ '/'))) (Text.trim href.toList) := by
  unfold resolveUrl refer
  generalize Text.trim href.toList = t at relative ⊢
  obtain ⟨nonempty, noFragment, noScheme⟩ := relative
  have apart : ∀ front ∈ ["#", "data:", "javascript:", "mailto:", "http://", "https://"], ¬ front.toList <+: t := by
    intro front member
    rintro ⟨more, rfl⟩
    simp only [mem_cons, not_mem_nil, or_false] at member
    rcases member with rfl | rfl | rfl | rfl | rfl | rfl
    · exact noFragment rfl
    all_goals exact noScheme (by simp)
  simp only [mem_cons, forall_eq_or_imp, ← isPrefixOf_iff_prefix] at apart
  simp only [Text.stripPrefix, apart, nonempty, Bool.false_eq_true, if_false, Option.isSome_none, decide_false,
    Bool.or_self]
  congr 1
  funext i
  by_cases double : ['/', '/'] <+: t
  · simp [double]
  by_cases single : ['/'] <+: t
  · obtain ⟨abs, rfl⟩ := single
    have other : ¬ ['/'] <+: abs := fun more => double ((prefix_cons_inj '/').mpr more)
    simp [other]
  · simp [double, single, directoryOf]

theorem Url.Shown.resolves {u : Url} {base href : String} (shown : u.Shown base.toList)
    (relative : Relative (Text.trim href.toList)) :
    resolveUrl base href = some (u.resolve (Text.trim href.toList)) := by
  obtain ⟨path, text, rooted, directory⟩ := shown
  have start := takeWhile_append_dropWhile (p := (· ≠ '/')) (l := path)
  rw [rooted, append_left_eq_self] at start
  have host : ∀ c ∈ u.authority, decide (c ≠ '/') = true := by
    intro c member
    exact decide_eq_true fun same => u.noSlash (same ▸ member)
  have front : u.scheme.length + 3 = u.front.length := by simp [Url.front]
  rw [resolveUrl_relative base relative, text, append_assoc, Url.front, Text.find_scheme u.noColon, Option.map_some,
    ← Url.front, front, take_left, drop_left, takeWhile_append_of_pos host, dropWhile_append_of_pos host, start, rooted,
    append_nil, directory]
  rfl

theorem Url.shown_iff (u : Url) (base : String) : u.Shown base.toList ↔ ∀ href : String,
    Relative (Text.trim href.toList) → resolveUrl base href = some (u.resolve (Text.trim href.toList)) := by
  refine ⟨fun shown href relative => shown.resolves relative, fun resolves => ?_⟩
  -- A reference in the same directory and one to the root of the host tell the two apart.
  have near := resolves "x" (by decide)
  have root := resolves "/x" (by decide)
  rw [resolveUrl_relative base (by decide)] at near root
  cases found : Text.find "://".toList base.toList with
  | none =>
    rw [found] at near
    cases near
  | some i =>
    rw [found] at near root
    have near := String.ofList_injective (show String.ofList (_ ++ ['x']) =
      String.ofList (_ ++ ['x']) from Option.some.inj near)
    have root := String.ofList_injective (show String.ofList (_ ++ ['/', 'x']) =
      String.ofList (_ ++ ['/', 'x']) from Option.some.inj root)
    have host := append_cancel_right root
    refine ⟨(base.toList.drop (i + 3)).dropWhile (· ≠ '/'), ?_, dropWhile_idempotent .., ?_⟩
    · rw [← host, append_assoc, takeWhile_append_dropWhile, take_append_drop]
    · exact append_cancel_left ((append_cancel_right near).trans (by rw [← host]))

theorem Tab.resolves_iff (t : Tab) : t.Resolves ↔ t.Shows := by
  unfold Tab.Resolves Tab.Shows
  rw [← toList_baseUrl]
  exact forall₂_congr fun u _ => (u.shown_iff _).symm

/-- In every state of every run the references of the page are read against its address exactly when the
address bar shows it; all along the run, exactly when every event keeps it so. -/
theorem references_iff (es : List TabEvent) :
    ((run Tab.step {} es).Resolves ↔ (run Tab.step {} es).Shows) ∧
      (Throughout Tab.step Tab.Resolves {} es ↔ Along Tab.step Tab.Keeps {} es) := by
  refine ⟨Tab.resolves_iff _, throughout_iff (fun t e resolves => ?_) nofun es⟩
  exact (t.step e).resolves_iff.trans (Tab.step_shows (t.resolves_iff.mp resolves) e)

/-- The page at the root of a host. -/
def rootPage (host : Char) (name : host ≠ '/') : Url where
  scheme := "https".toList
  authority := [host]
  path := ['/']
  noColon := by decide
  noSlash := by simpa using name.symm
  rooted := rfl
  plain := by decide

/-- A page is left by one of its links; the bar stays, and the references of the next page go to the
host of the first. -/
theorem link_keeps_bar : ¬ ∀ es : List TabEvent, (run Tab.step {} es).Resolves := by
  intro always
  have resolved := always [.typed "https://a/" fun _ => rootPage 'a' (by decide),
    .clicked "https://b/" fun _ => rootPage 'b' (by decide)] (rootPage 'b' (by decide)) rfl "x" (by decide)
  exact absurd resolved (by decide +kernel)

end BarryOS.Web
