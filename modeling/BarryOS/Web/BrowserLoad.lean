import BarryOS.Web.Browser

/-!
# Loads that come to a standstill

`tick` steps a load on only when the client reports `Done`, and only when the phase or the
length of the body has changed since the last pass. So a load stands still for good when a
fetch fails, be it for a subresource, and when a fetch lands unnoticed (`stuck_iff`).

Otherwise it makes progress: every fetch that lands leaves less to do or ends with the page
laid out (`Advanced`), and there are at most `Browser.left` of them.
-/

namespace BarryOS.Web

open Lib BrowserEvent Nat

variable {a : Started}

namespace Browser

variable (engine : Engine) {b : Browser}

/-- A load is on, the client has ended its fetch, and every further tick leaves both as they are. (A
tick that starts the next fetch is no standstill, though the stage may stay the same.) -/
def Stuck (engine : Engine) (b : Browser) : Prop :=
  b.stage ≠ .idle ∧ (b.client.phase = .done ∨ b.client.phase = .failed) ∧
    ∀ answers : List Started, (run (tick engine) b answers).stage = b.stage ∧
      (run (tick engine) b answers).client = b.client

/-- How much of a load is left, in fetches. -/
def left (b : Browser) : Nat :=
  match b.stage with
  | .idle => 0
  | .document => 2 * (queueMax + 2)
  | .resources => queueMax + 2 + (b.queue.entries.length - b.queue.next)
  | .pictures => 1 + (b.queue.entries.length - b.queue.next)

/-- While the parts of a page are fetched there is a page. -/
def Paged (b : Browser) : Prop := b.stage = .resources ∨ b.stage = .pictures → b.page.isSome = true

/-! ## The queue -/

theorem enqueue_length {base href : String} {kind : ResourceKind} {slot : Nat} {q q' : Queue}
    (h : enqueue base href kind slot q = some q') : q'.entries.length ≤ queueMax ∧ q'.next = q.next := by
  unfold enqueue at h
  split at h
  · cases h
  split at h
  · cases h
  split at h
  · cases h
  obtain rfl := Option.some.inj h
  refine ⟨?_, rfl⟩
  rw [List.length_append, List.length_singleton]
  omega

/-- Adding to the queue keeps it short and starts nothing. -/
theorem foldl_enqueue {f : Queue → String → Queue}
    (adds : ∀ q href, f q href = q ∨ (f q href).entries.length ≤ queueMax ∧ (f q href).next = q.next)
    (hrefs : List String) (q : Queue) (short : q.entries.length ≤ queueMax) :
    (hrefs.foldl f q).entries.length ≤ queueMax ∧ (hrefs.foldl f q).next = q.next := by
  induction hrefs generalizing q with
  | nil => exact ⟨short, rfl⟩
  | cons href hrefs ih =>
    rw [List.foldl_cons]
    rcases adds q href with same | ⟨shorter, next⟩
    · rw [same]
      exact ih q short
    obtain ⟨length, next'⟩ := ih _ shorter
    exact ⟨length, next'.trans next⟩

variable (base : String) (q : Queue)

/-- The queue is as before, or it is short and starts where it did. -/
def Adds (q q' : Queue) : Prop := q' = q ∨ q'.entries.length ≤ queueMax ∧ q'.next = q.next

theorem enqueueSheet_adds (href : String) : Adds q (enqueueSheet base q href) := by
  unfold enqueueSheet
  split
  · exact .inl rfl
  split
  next q' added =>
    obtain ⟨length, next⟩ := enqueue_length added
    exact .inr ⟨length, next⟩
  · exact .inl rfl

theorem enqueueScript_adds (src : String) : Adds q (enqueueScript base q src) := by
  unfold enqueueScript
  split
  · exact .inl rfl
  split
  next q' added =>
    obtain ⟨length, next⟩ := enqueue_length added
    exact .inr ⟨length, next⟩
  · exact .inl rfl

theorem enqueueImage_adds (src : String) : Adds q (enqueueImage base q src) := by
  unfold enqueueImage
  split
  · exact .inl rfl
  cases added : enqueue base src .image 0 q with
  | none => exact .inl rfl
  | some q' => exact .inr (enqueue_length added)

/-! ## What a step of the load does -/

/-- From `b` a step of the load has led to `after`: it has started a fetch or ended the load, and it
has laid the page out or left less to do. -/
structure Advanced (b after : Browser) (a : Started) (bound : Nat) : Prop where
  fetches : after.client = a.client ∨ after.stage = .idle ∧ after.client = b.client
  phase : after.lastPhase = b.lastPhase
  body : after.lastBody = b.lastBody
  paged : after.Paged
  progress : after.layouts = b.layouts + 1 ∨ after.stage ≠ .idle ∧ after.layouts = b.layouts ∧ after.left < bound

theorem paged_of_idle (idle : b.stage = .idle) : b.Paged := by
  intro stage
  rw [idle] at stage
  rcases stage with h | h <;> cases h

theorem setUrl_startLoad_paged (b : Browser) (url : String) (a : Started) : ((b.setUrl url).startLoad a).Paged := by
  intro stage
  unfold startLoad at stage
  split at stage <;> rcases stage with h | h <;> cases h

theorem layoutNow_advanced (paged : b.page.isSome = true) (a : Started) (bound : Nat) :
    Advanced b (b.layoutNow a) a bound := by
  obtain ⟨page, hasPage⟩ := Option.isSome_iff_exists.mp paged
  unfold layoutNow
  rw [hasPage]
  dsimp only
  split
  · split
    · exact ⟨.inl rfl, rfl, rfl, setUrl_startLoad_paged _ _ a, .inl rfl⟩
    · exact ⟨.inr ⟨rfl, rfl⟩, rfl, rfl, paged_of_idle rfl, .inl rfl⟩
  · exact ⟨.inr ⟨rfl, rfl⟩, rfl, rfl, paged_of_idle rfl, .inl rfl⟩

theorem Advanced.mono {after : Browser} {bound bound' : Nat} (h : Advanced b after a bound)
    (le : bound ≤ bound') : Advanced b after a bound' :=
  { h with progress := h.progress.imp_right fun less => ⟨less.1, less.2.1, lt_of_lt_of_le less.2.2 le⟩ }

theorem startNext_advanced {b' : Browser} {bound : Nat} (started : b.startNext a = some b')
    (paged : b.page.isSome = true) (stage : b.stage = .resources ∨ b.stage = .pictures)
    (room : b.queue.next < b.queue.entries.length → b.left ≤ bound) : Advanced b b' a bound := by
  unfold startNext at started
  split at started
  next lt =>
    obtain rfl := Option.some.inj started
    have loading : b.stage ≠ .idle := by
      rcases stage with stage | stage <;> rw [stage] <;> decide
    refine ⟨.inl rfl, rfl, rfl, fun _ => paged, .inr ⟨loading, rfl, ?_⟩⟩
    have fits := room lt
    unfold left at fits ⊢
    rcases stage with stage | stage <;> rw [stage] at fits ⊢ <;> dsimp only at fits ⊢ <;> omega
  · cases started

/-- What a step reads of the load before is what it may not touch. -/
theorem Advanced.congr {b₁ after : Browser} {bound : Nat} (h : Advanced b₁ after a bound)
    (client : b₁.client = b.client) (phase : b₁.lastPhase = b.lastPhase) (body : b₁.lastBody = b.lastBody)
    (layouts : b₁.layouts = b.layouts) : Advanced b after a bound where
  fetches := client ▸ h.fetches
  phase := h.phase.trans phase
  body := h.body.trans body
  paged := h.paged
  progress := layouts ▸ h.progress

theorem pictureArrived_advanced (paged : b.page.isSome = true) (stage : b.stage = .pictures) (a : Started) :
    Advanced b (b.pictureArrived a) a b.left := by
  unfold pictureArrived
  split
  next b' started => exact startNext_advanced started paged (Or.inr stage) fun _ => le_refl _
  · have ends := layoutNow_advanced (b := b.rest) paged a b.left
    exact ends.congr rfl rfl rfl rfl

theorem afterResources_advanced (paged : b.page.isSome = true) (a : Started) :
    Advanced b (b.afterResources engine a) a (queueMax + 2) := by
  obtain ⟨page, hasPage⟩ := Option.isSome_iff_exists.mp paged
  unfold afterResources
  rw [hasPage]
  dsimp only
  generalize page.scripts ++ (b.queue.scripts.take b.queue.scriptCount).filter (· ≠ "") = scripts
  generalize engine page.dom scripts b.baseUrl = outcome
  generalize ({ page with
    dom := outcome.1
    css := page.css ++ (b.queue.sheets.take b.queue.sheetCount).filter (· ≠ "")
    scripts := scripts } : Page) = page'
  obtain ⟨short, first⟩ := foldl_enqueue (enqueueImage_adds b.baseUrl) page'.imageUrls
    { b.queue with entries := [], next := 0 } (zero_le _)
  generalize page'.imageUrls.foldl (enqueueImage b.baseUrl) { b.queue with entries := [], next := 0 } = q
    at short first
  -- With the page in place what follows is as when a picture arrives.
  have pictures := pictureArrived_advanced (b := { b with
    page := some page', pendingNav := outcome.2.or page'.metaRefresh, queue := q, stage := .pictures }) rfl rfl a
  have small : 1 + (q.entries.length - q.next) ≤ queueMax + 2 := by omega
  exact (Advanced.mono pictures small).congr rfl rfl rfl rfl

theorem startNext_or_afterResources (paged : b.page.isSome = true) (stage : b.stage = .resources) (a : Started) :
    Advanced b (match b.startNext a with
      | some b => b
      | none => b.rest.afterResources engine a) a b.left := by
  split
  next b' started => exact startNext_advanced started paged (Or.inl stage) fun _ => le_refl _
  have ends := afterResources_advanced engine (b := b.rest) paged a
  refine (Advanced.mono ends ?_).congr rfl rfl rfl rfl
  unfold left
  rw [stage]
  dsimp only
  omega

theorem keepText_left (text : String) : (keepText q text).entries = q.entries ∧ (keepText q text).next = q.next := by
  unfold keepText
  dsimp only
  split
  · split
    · exact ⟨rfl, rfl⟩
    · split <;> exact ⟨rfl, rfl⟩
  · exact ⟨rfl, rfl⟩

theorem subArrived_advanced (paged : b.page.isSome = true) (stage : b.stage = .resources) (a : Started) :
    Advanced b (b.subArrived engine a) a b.left := by
  obtain ⟨entries, next⟩ := keepText_left b.queue (bodyText b.client.body subCap)
  have arrived := startNext_or_afterResources engine
    (b := { b with queue := keepText b.queue (bodyText b.client.body subCap) }) paged stage a
  have same : left { b with queue := keepText b.queue (bodyText b.client.body subCap) } = b.left := by
    unfold left
    rw [entries, next]
  rw [same] at arrived
  exact arrived.congr rfl rfl rfl rfl

theorem capture_advanced (b : Browser) (a : Started) : Advanced b (b.capture engine a) a (2 * (queueMax + 2)) := by
  unfold capture
  dsimp only
  generalize Page.parse (b.client.body.take pageCap) = page
  obtain ⟨short, first⟩ := foldl_enqueue (enqueueSheet_adds b.baseUrl) page.stylesheets
    { b.queue with entries := [], next := 0, bytes := 0 } (zero_le _)
  generalize page.stylesheets.foldl (enqueueSheet b.baseUrl)
    { b.queue with entries := [], next := 0, bytes := 0 } = sheets at short first
  obtain ⟨short, next⟩ := foldl_enqueue (enqueueScript_adds b.baseUrl) page.scriptUrls sheets short
  generalize page.scriptUrls.foldl (enqueueScript b.baseUrl) sheets = q at short next
  have arrived := startNext_or_afterResources engine
    (b := { b with page := some page, queue := q, stage := .resources }) rfl rfl a
  have small : queueMax + 2 + (q.entries.length - q.next) ≤ 2 * (queueMax + 2) := by omega
  exact (Advanced.mono arrived small).congr rfl rfl rfl rfl

/-- Whatever has landed, the load goes on to something that leaves less to do, or ends. -/
theorem advance_advanced (paged : b.Paged) (loading : b.stage ≠ .idle) (a : Started) :
    Advanced b (b.advance engine a) a b.left := by
  unfold advance
  split
  next idle => exact absurd idle loading
  next document =>
    have captured := capture_advanced engine { b with stage := .idle } a
    have all : b.left = 2 * (queueMax + 2) := by
      unfold left
      rw [document]
    rw [all]
    exact captured.congr rfl rfl rfl rfl
  next resources => exact subArrived_advanced engine (paged (Or.inl resources)) resources a
  next pictures => exact pictureArrived_advanced (paged (Or.inr pictures)) pictures a

/-! ## Standing still -/

/-- The client has ended a fetch, and no tick will act on it. -/
def Halted (b : Browser) : Prop := b.client.phase = .failed ∨ b.client.phase = .done ∧ b.seen = true

theorem Halted.tick_same (halted : b.Halted) (a : Started) :
    (b.tick engine a).stage = b.stage ∧ (b.tick engine a).client = b.client ∧ (b.tick engine a).Halted := by
  unfold tick
  split
  · exact ⟨rfl, rfl, halted⟩
  rename_i unseen
  rcases halted with failed | ⟨_, seen⟩
  · have notDone : (b.client.phase = .done && b.stage ≠ .idle) = false := by
      rw [failed]
      rfl
    dsimp only
    rw [notDone]
    exact ⟨rfl, rfl, .inl failed⟩
  · exact absurd seen unseen

/-- A tick that finds a fetch landed steps the load on. -/
theorem tick_advanced (paged : b.Paged) (loading : b.stage ≠ .idle) (done : b.client.phase = .done)
    (unseen : b.seen = false) (a : Started) :
    Advanced { b with lastPhase := some .done, lastBody := some b.client.body.length } (b.tick engine a) a b.left := by
  unfold tick
  rw [unseen]
  dsimp only
  rw [done]
  have acts : (decide (HttpPhase.done = .done) && decide (b.stage ≠ .idle)) = true := by
    simp [loading]
  rw [if_pos acts]
  exact advance_advanced engine (b := { b with lastPhase := some .done, lastBody := some b.client.body.length })
    paged loading a

/-- A tick that finds nothing new to act on leaves the load as it is. -/
theorem tick_rests (rests : ¬ (b.stage ≠ .idle ∧ b.client.phase = .done ∧ b.seen = false)) (a : Started) :
    ∃ phase body, b.tick engine a = { b with lastPhase := phase, lastBody := body } := by
  unfold tick
  split
  · exact ⟨b.lastPhase, b.lastBody, rfl⟩
  rename_i unseen
  have notActs : ¬ (decide (b.client.phase = .done) && decide (b.stage ≠ .idle)) = true := by
    simp only [Bool.and_eq_true, decide_eq_true_eq, not_and]
    intro done loading
    exact rests ⟨loading, done, Bool.not_eq_true _ ▸ unseen⟩
  rw [if_neg notActs]
  exact ⟨_, _, rfl⟩

theorem stuck_iff (paged : b.Paged) : b.Stuck engine ↔ b.stage ≠ .idle ∧ b.Halted := by
  constructor
  · rintro ⟨loading, ended, still⟩
    refine ⟨loading, ?_⟩
    rcases ended with done | failed
    · cases noticed : b.seen with
      | true => exact .inr ⟨done, noticed⟩
      | false =>
        -- The tick acts on it: it starts a fetch, or the load is over.
        have advanced := tick_advanced engine paged loading done noticed ⟨.resolving, []⟩
        obtain ⟨stage, client⟩ := still [⟨.resolving, []⟩]
        rw [run_cons, run_nil] at stage client
        rcases advanced.fetches with fetched | ⟨idle, _⟩
        · have resolving : b.client.phase = .resolving := by
            rw [← client, fetched]
            rfl
          rw [done] at resolving
          cases resolving
        · exact absurd (stage ▸ idle) loading
    · exact .inl failed
  · rintro ⟨loading, halted⟩
    refine ⟨loading, halted.symm.imp_left And.left, fun answers => ?_⟩
    have still := run_invariant (σ := Browser) (fun b' => b'.stage = b.stage ∧ b'.client = b.client ∧ b'.Halted)
      (fun b' a same => by
        obtain ⟨stage, client, halted⟩ := same.2.2.tick_same engine a
        exact ⟨stage.trans same.1, client.trans same.2.1, halted⟩)
      ⟨rfl, rfl, halted⟩ answers
    exact ⟨still.1, still.2.1⟩

end Browser

/-! ## Runs in which every fetch succeeds -/

/-- While a load is on no fetch fails or is refused, and none lands with a body as long as the one the
last tick saw land, before another tick. -/
def BrowserEvent.Succeeds (b : Browser) : BrowserEvent → Prop
  | poll next => b.stage ≠ .idle → next.phase ≠ .failed ∧
      (next.phase = .done → ¬ (b.lastPhase = some .done ∧ b.lastBody = some next.body.length))
  | tick a => b.stage ≠ .idle → a.phase ≠ .refused
  | visit _ _ => True
  | fetch a => b.stage ≠ .idle → a.phase ≠ .refused

instance (b : Browser) (e : BrowserEvent) : Decidable (e.Succeeds b) :=
  match e with
  | .poll next => inferInstanceAs (Decidable (b.stage ≠ .idle → next.phase ≠ .failed ∧
      (next.phase = .done → ¬ (b.lastPhase = some .done ∧ b.lastBody = some next.body.length))))
  | .tick a => inferInstanceAs (Decidable (b.stage ≠ .idle → a.phase ≠ .refused))
  | .visit .. => isTrue trivial
  | .fetch a => inferInstanceAs (Decidable (b.stage ≠ .idle → a.phase ≠ .refused))

namespace Browser

variable (engine : Engine) {b : Browser}

/-- The load is not at a standstill. -/
structure Healthy (b : Browser) : Prop where
  moving : b.stage ≠ .idle → ¬ b.Halted
  paged : b.Paged

/-- A fetch that has just been started is under way. -/
theorem started_moving (client : b.client = a.client) (accepted : a.phase ≠ .refused) : ¬ b.Halted := by
  unfold Halted Started.client at *
  rw [client]
  cases phase : a.phase with
  | refused => exact absurd phase accepted
  | resolving => simp
  | connecting => simp

theorem Healthy.of_idle (idle : b.stage = .idle) : b.Healthy where
  moving loading := absurd idle loading
  paged := paged_of_idle idle

theorem Healthy.unseen (h : b.Healthy) (loading : b.stage ≠ .idle) (done : b.client.phase = .done) :
    b.seen = false := by
  cases noticed : b.seen with
  | false => rfl
  | true => exact absurd (.inr ⟨done, noticed⟩) (h.moving loading)

theorem Healthy.tick (h : b.Healthy) (accepted : b.stage ≠ .idle → a.phase ≠ .refused) : (b.tick engine a).Healthy := by
  by_cases acts : b.stage ≠ .idle ∧ b.client.phase = .done ∧ b.seen = false
  · obtain ⟨loading, done, unseen⟩ := acts
    have advanced := tick_advanced engine h.paged loading done unseen a
    refine ⟨fun still => ?_, advanced.paged⟩
    rcases advanced.fetches with client | ⟨idle, _⟩
    · exact started_moving client (accepted loading)
    · exact absurd idle still
  · obtain ⟨phase, body, same⟩ := tick_rests engine acts a
    rw [same]
    refine ⟨fun loading => ?_, h.paged⟩
    rintro (failed | ⟨done, _⟩)
    · exact h.moving loading (.inl failed)
    · exact acts ⟨loading, done, h.unseen loading done⟩

theorem Healthy.step (h : b.Healthy) {e : BrowserEvent} (succeeds : e.Succeeds b) : (e.step engine b).Healthy := by
  cases e with
  | poll next =>
    refine ⟨fun loading => ?_, h.paged⟩
    obtain ⟨notFailed, notSeen⟩ := succeeds loading
    rintro (failed | ⟨done, noticed⟩)
    · exact notFailed failed
    · unfold seen at noticed
      rw [done] at noticed
      simp only [Bool.and_eq_true, decide_eq_true_eq] at noticed
      exact notSeen done noticed
  | tick a => exact h.tick engine succeeds
  | visit url a =>
    refine ⟨fun loading => ?_, setUrl_startLoad_paged b url a⟩
    refine started_moving rfl fun refused => loading ?_
    unfold BrowserEvent.step startLoad
    dsimp only
    rw [if_pos refused]
  | fetch a => exact ⟨fun loading => started_moving rfl (succeeds loading), h.paged⟩

/-! ## How long a load takes -/

/-- A fetch of the load has landed, and the browser looks. -/
def Lands (b : Browser) : BrowserEvent → Prop
  | .tick _ => b.stage ≠ .idle ∧ b.client.phase = .done
  | _ => False

instance (b : Browser) (e : BrowserEvent) : Decidable (b.Lands e) :=
  match e with
  | .tick _ => inferInstanceAs (Decidable (b.stage ≠ .idle ∧ b.client.phase = .done))
  | .poll _ | .visit .. | .fetch _ => isFalse id

/-- How many fetches land in a run. -/
def landings (engine : Engine) : Browser → List BrowserEvent → Nat
  | _, [] => 0
  | b, e :: es => (if b.Lands e then 1 else 0) + landings engine (e.step engine b) es

/-- No reader goes elsewhere. -/
def Stays : BrowserEvent → Prop
  | .visit .. => False
  | _ => True

theorem left_pos (loading : b.stage ≠ .idle) : 0 < b.left := by
  unfold left
  split
  next idle => exact absurd idle loading
  · omega
  · omega
  · omega

/-- In a load every event leaves the page laid out or no more to do, and less when a fetch lands. -/
theorem Healthy.step_progress (h : b.Healthy) (loading : b.stage ≠ .idle) {e : BrowserEvent} (stays : Stays e) :
    b.layouts < (e.step engine b).layouts ∨ (e.step engine b).stage ≠ .idle ∧
      (e.step engine b).layouts = b.layouts ∧ (e.step engine b).left + (if b.Lands e then 1 else 0) ≤ b.left := by
  cases e with
  | poll next => exact .inr ⟨loading, rfl, le_rfl⟩
  | fetch a => exact .inr ⟨loading, rfl, le_rfl⟩
  | visit url a => exact stays.elim
  | tick a =>
    by_cases done : b.client.phase = .done
    · have lands : b.Lands (.tick a) := ⟨loading, done⟩
      have advanced := tick_advanced engine h.paged loading done (h.unseen loading done) a
      rcases advanced.progress with laid | ⟨still, same, less⟩
      · exact .inl (lt_of_lt_of_le (lt_succ_self _) (le_of_eq laid.symm))
      rw [if_pos lands]
      exact .inr ⟨still, same, less⟩
    · obtain ⟨phase, body, same⟩ := tick_rests engine (b := b) (fun acts => done acts.2.1) a
      have notLands : ¬ b.Lands (.tick a) := fun lands => done lands.2
      rw [if_neg notLands, BrowserEvent.step, same]
      exact .inr ⟨loading, rfl, le_rfl⟩

theorem Healthy.step_layouts (h : b.Healthy) (e : BrowserEvent) : b.layouts ≤ (e.step engine b).layouts := by
  cases e with
  | poll next => exact le_rfl
  | fetch a => exact le_rfl
  | visit url a => exact le_rfl
  | tick a =>
    by_cases loading : b.stage = .idle
    · obtain ⟨phase, body, same⟩ := tick_rests engine (b := b) (fun acts => acts.1 loading) a
      rw [BrowserEvent.step, same]
    rcases h.step_progress engine loading (e := .tick a) trivial with more | ⟨_, same, _⟩
    · exact le_of_lt more
    · exact le_of_eq same.symm

theorem Healthy.run_layouts (h : b.Healthy) {es : List BrowserEvent}
    (succeeds : Along (BrowserEvent.step engine) BrowserEvent.Succeeds b es) :
    b.layouts ≤ (run (BrowserEvent.step engine) b es).layouts :=
  (succeeds.invariant (fun b' => b'.Healthy ∧ b.layouts ≤ b'.layouts)
    (fun _ e kept ok => ⟨kept.1.step engine ok, le_trans kept.2 (kept.1.step_layouts engine e)⟩) ⟨h, le_rfl⟩).2

/-- Once as many fetches have landed as are left, the page has been laid out. -/
theorem Healthy.laid_out (h : b.Healthy) (loading : b.stage ≠ .idle) {es : List BrowserEvent}
    (succeeds : Along (BrowserEvent.step engine) BrowserEvent.Succeeds b es) (stays : ∀ e ∈ es, Stays e)
    (enough : b.left ≤ landings engine b es) : b.layouts < (run (BrowserEvent.step engine) b es).layouts := by
  induction es generalizing b with
  | nil => exact absurd (left_pos loading) (not_lt.mpr enough)
  | cons e es ih =>
    have next := h.step engine succeeds.1
    rcases h.step_progress engine loading (stays e (List.mem_cons_self ..)) with
      laid | ⟨still, same, less⟩
    · exact lt_of_lt_of_le laid (next.run_layouts engine succeeds.2)
    rw [landings] at enough
    have later := ih next still succeeds.2 (fun e mem => stays e (List.mem_cons_of_mem _ mem)) (by omega)
    rw [run_cons]
    omega

/-- In a run in which every fetch succeeds and is noticed, no load comes to a standstill: each one ends
with the page laid out, after at most as many fetches as were left. -/
theorem load_completes (engine : Engine) (es : List BrowserEvent)
    (succeeds : Along (BrowserEvent.step engine) BrowserEvent.Succeeds Browser.start es) :
    Throughout (BrowserEvent.step engine) (fun b => ¬ b.Stuck engine ∧
      ∀ fs : List BrowserEvent, Along (BrowserEvent.step engine) BrowserEvent.Succeeds b fs →
        (∀ e ∈ fs, Stays e) → b.stage ≠ .idle → b.left ≤ landings engine b fs →
        b.layouts < (run (BrowserEvent.step engine) b fs).layouts) Browser.start es := by
  have healthy := succeeds.throughout Healthy (fun _ _ h ok => h.step engine ok) (Healthy.of_idle rfl)
  refine healthy.mono fun b h => ⟨fun stuck => ?_, fun fs ok stays loading enough => ?_⟩
  · obtain ⟨loading, halted⟩ := (stuck_iff engine h.paged).mp stuck
    exact h.moving loading halted
  · exact h.laid_out engine loading ok stays enough

/-- Runs no script. -/
def plainEngine : Engine := fun d _ _ => (d, none)

/-- A fetch that gets to the end, seen from the client. -/
def fetched (body : Bytes) : List BrowserEvent :=
  [.poll ⟨.connecting, []⟩, .poll ⟨.sending, []⟩, .poll ⟨.receiving, []⟩, .poll ⟨.done, body⟩]

/-- A page with one style sheet. -/
def linkedPage : List BrowserEvent :=
  .visit "http://a/" ⟨.resolving, []⟩ :: fetched (bytesOf "<link rel=stylesheet href=/a.css>") ++
    [.tick ⟨.resolving, []⟩]

theorem linkedPage_completes : Throughout (step plainEngine) (fun b => ¬ b.Stuck plainEngine ∧
      ∀ fs : List BrowserEvent, Along (step plainEngine) Succeeds b fs →
        (∀ e ∈ fs, Stays e) → b.stage ≠ .idle → b.left ≤ landings plainEngine b fs →
        b.layouts < (run (step plainEngine) b fs).layouts) Browser.start
      (linkedPage ++ fetched (bytesOf "p{}") ++ [.tick ⟨.resolving, []⟩]) :=
  load_completes plainEngine _ (by decide +kernel)

/-- The style sheet's host cannot be found: the load waits for it for good. -/
theorem failed_stylesheet_stuck : ¬ ∀ (engine : Engine) (es : List BrowserEvent),
      Along (step engine) Possible Browser.start es →
      Throughout (step engine) (fun b => ¬ b.Stuck engine) Browser.start es := by
  intro completes
  have last := (completes plainEngine (linkedPage ++ [.poll ⟨.failed, []⟩]) (by decide +kernel)).last
  have ends : ∀ b, run (step plainEngine) Browser.start (linkedPage ++ [.poll ⟨.failed, []⟩]) = b →
      b.stage = .resources ∧ b.client.phase = .failed ∧ b.page.isSome = true := by
    rintro b rfl
    decide +kernel
  obtain ⟨stage, failed, paged⟩ := ends _ rfl
  refine last ((stuck_iff _ fun _ => paged).mpr ⟨?_, .inl failed⟩)
  rw [stage]
  decide

end Browser

end BarryOS.Web
