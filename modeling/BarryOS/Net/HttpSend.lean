import BarryOS.Crypto.TlsAccepted
import BarryOS.Net.HttpRedirect
import BarryOS.Net.TcpAccept

/-!
# Requests on their way

`tick` hands the request to the transport again until the transport says that it was sent. That
is right when `false` means that nothing was sent. It does not: `tcp::send` queues before it
asks `ipv4::send`, and `tls::send` counts and seals before it asks `tcp::send`. `Careful` is what
holds while frames go out and TCP has room when a request is handed over.
-/

namespace BarryOS.Net.Http

open Lib Crypto Stack Nat List

variable (P : Crypto.Primitives) (env : Env)

/-- All or nothing: a call that answers `false` leaves nothing in the queue and takes no number; a
hop has its request in the stream at most once; and the records of an https hop go to TCP in step
with their numbers, unless a message of the server starts the counter over. -/
structure Whole (s : Stack) : Prop where
  queue : s.tcp.allSent
  refused : ∀ r ∈ s.history.requests, r.sent = false → r.queued = false ∧ r.seqAfter = r.seq
  once : s.history.requests.Pairwise fun a b => a.hop = b.hop → a.queued = true → b.queued = false
  numbered : s.http.inProgress = true → s.http.useTls = true → s.session.tls.phase ≠ .failed →
    s.session.log.all (Entry.steady P) = true → s.session.tls.Carried P ∧ InStep s.session.tls

/-- The request can be handed over: a plain one goes out if TCP queues it, and an encrypted one finds
TCP open with room in its queue. -/
structure Stack.CanSend (s : Stack) : Prop where
  plain : s.http.useTls = false → s.tcp.takes s.http.req → env.tcp.sends s.tcp.wire.length = true
  frames : s.http.useTls = true → ∀ n, env.tcp.sends n = true
  encrypted : s.http.useTls = true → s.session.tls.established = true →
    s.tcp.state = .established ∧ s.tcp.queued < Tcp.txSlots

/-- The state in which `tick` hands over the request. -/
def Stack.atSend (s : Stack) : Stack :=
  (({ s with dns := s.dns.tick env.tcp.now }).transport P env .tick).tickTransport P env

/-- Frames go out while an https fetch is on its way, and a request that is due can be handed over. -/
structure Stack.Clear (s : Stack) : Prop where
  frames : s.http.inProgress = true → s.http.useTls = true → ∀ n, env.tcp.sends n = true
  due : s.http.phase = .sending → s.http.requestSent = false → (s.atSend P env).CanSend env

/-- The condition on one call. -/
def Stack.Ready (s : Stack) (c : Call) : Prop :=
  match c.event with
  | .tick => s.Clear P c.env
  | _ => True

/-! ## The session -/

/-- On a live connection every record has been taken, and before the handshake there is none. -/
structure Safe (σ : Session) : Prop where
  carried : σ.tls.phase ≠ .failed → σ.tls.Carried P
  blank : σ.tls.phase = .connecting → σ.tls.sealed = []

namespace Safe

variable {P} {σ : Crypto.Session}

theorem tcp (h : Safe P σ) {tcp : Tcp.Tcb} (more : σ.tls.tcp.stream ⊆ tcp.stream) :
    Safe P { σ with tls := { σ.tls with tcp := tcp } } := by
  refine ⟨fun alive c member => ?_, h.blank⟩
  exact Sealed.taken_mono P (h.carried alive c member) more

theorem of_blank (blank : σ.tls.sealed = []) : Safe P σ := by
  refine ⟨fun _ c member => ?_, fun _ => blank⟩
  rw [blank] at member
  cases member

/-- While a tick leaves the client connecting, nothing is sealed. -/
theorem blank_tick (e : Crypto.Env) (connecting : σ.tls.phase = .connecting)
    (still : (σ.tick P e).tls.phase = .connecting) : (σ.tick P e).tls.sealed = σ.tls.sealed := by
  unfold Crypto.Session.tick at still ⊢
  rw [connecting] at still ⊢
  dsimp only [Crypto.Tls.tickConnecting] at still ⊢
  split
  next opened =>
    rw [if_pos opened] at still
    rcases Crypto.Session.sendClientHello_phase P e ((σ.tls.tickTcp e).tickDns e) with on | failed
    · cases on.symm.trans still
    · cases failed.symm.trans still
  · have looked : ((σ.tls.tickTcp e).tickDns e).sealed = σ.tls.sealed := by
      unfold Crypto.Tls.tickDns
      split <;> rfl
    split
    · exact looked
    · exact looked

theorem tick (h : Safe P σ) (e : Crypto.Env) : Safe P (σ.tick P e) := by
  by_cases connects : σ.tls.phase = .connecting ∧ ∃ ip, e.dns = .resolved (some ip)
  · obtain ⟨connecting, ip, resolved⟩ := connects
    apply of_blank
    rw [Crypto.Session.tick_connects P e connecting resolved]
    exact h.blank connecting
  have carries := Crypto.Session.tick_carries P e σ fun connecting ip resolved =>
    connects ⟨connecting, ip, resolved⟩
  refine ⟨fun alive => carries.carried P alive h.carried, fun connecting => ?_⟩
  have before : σ.tls.phase = .connecting := by
    by_contra busy
    exact Crypto.Session.tick_busy P e busy connecting
  rw [blank_tick e before connecting]
  exact h.blank before

theorem start (e : Crypto.Env) (host : Bytes) (port : UInt16) (s : Crypto.Tls) :
    Safe P ⟨(s.start e host port).2, []⟩ := by
  apply of_blank
  dsimp only [Crypto.Tls.start]
  split
  · rfl
  split
  · rfl
  · split <;> rfl

end Safe

theorem start_allSent {s : Crypto.Tls} (e : Crypto.Env) (host : Bytes) (port : UInt16) (h : s.tcp.allSent) :
    (s.start e host port).2.tcp.allSent := by
  cases literal : Crypto.Tls.parseIp host with
  | some ip =>
    rw [(Crypto.Tls.start_literal e literal port s).2.2]
    intro entry queued
    cases queued
  | none =>
    rw [(Crypto.Tls.start_named e literal port s).1]
    exact h

theorem tick_allSent {σ : Crypto.Session} {e : Crypto.Env} (out : ∀ n, e.tcp.sends n = true) (h : σ.tls.tcp.allSent) :
    (σ.tick P e).tls.tcp.allSent := by
  by_cases connects : σ.tls.phase = .connecting ∧ ∃ ip, e.dns = .resolved (some ip)
  · obtain ⟨connecting, ip, resolved⟩ := connects
    rw [Crypto.Session.tick_connects P e connecting resolved]
    intro entry queued
    cases queued
  refine Tcp.allSent_of_uses e.tcp out (Crypto.Session.tick_uses P e σ fun connecting ip resolved => ?_) h
  exact connects ⟨connecting, ip, resolved⟩

/-! ## The invariant -/

/-- What does not depend on the hop. -/
structure Posted (s : Stack) : Prop where
  history : Crypto.History P s.session
  fresh : s.session.log.all (Entry.steady P) = true → Fresh s.session.tls
  tally : s.session.log.all (Entry.steady P) = true → Tally s.session.tls
  queue : s.tcp.allSent
  refused : ∀ r ∈ s.history.requests, r.sent = false → r.queued = false ∧ r.seqAfter = r.seq
  once : s.history.requests.Pairwise fun a b => a.hop = b.hop → a.queued = true → b.queued = false
  known : ∀ r ∈ s.history.requests, r.hop.number ≤ s.hop.number
  req : s.http.req.length ≤ 512

/-- Until the request of a hop is sent, none of it is queued. -/
structure Careful (s : Stack) : Prop extends Posted P s where
  unsent : s.http.requestSent = false → ∀ r ∈ s.history.requests, r.hop = s.hop → r.queued = false
  safe : s.http.inProgress = true → s.http.useTls = true → Safe P s.session
  plain : s.http.phase = .resolving → s.http.useTls = false

variable {s : Stack}

theorem Careful.whole (h : Careful P s) : Whole P s where
  queue := h.queue
  refused := h.refused
  once := h.once
  numbered := fun active tls alive steady => ⟨(h.safe active tls).carried alive, (h.tally steady).inStep⟩

variable {P}

/-- The session moves on, and no request is made. -/
theorem Posted.next {s t : Stack} (h : Posted P s) (moves : Moves P s.session t.session) (queue : t.tcp.allSent)
    (same : t.history.requests = s.history.requests) (hop : s.hop.number ≤ t.hop.number)
    (req : t.http.req.length ≤ 512) : Posted P t := by
  have counted := moves.invariant P (fun σ => σ.log.all (Entry.steady P) = true → Fresh σ.tls ∧ Tally σ.tls)
    (fun σ τ before move steady =>
      ⟨fresh_move P (fun steady => (before steady).1) move steady,
        Tally.move P (fun steady => (before steady).1) (fun steady => (before steady).2) move steady⟩)
    (fun steady => ⟨h.fresh steady, h.tally steady⟩)
  refine ⟨moves.invariant P (Crypto.History P) (fun _ _ history move => history.move P move) h.history,
    fun steady => (counted steady).1, fun steady => (counted steady).2, queue, ?_, ?_, ?_, req⟩
  · rw [same]
    exact h.refused
  · rw [same]
    exact h.once
  · rw [same]
    exact fun r member => le_trans (h.known r member) hop

theorem Posted.careful (h : Posted P s) (new : ∀ r ∈ s.history.requests, r.hop.number < s.hop.number)
    (safe : s.http.inProgress = true → s.http.useTls = true → Safe P s.session)
    (plain : s.http.phase = .resolving → s.http.useTls = false) : Careful P s := by
  refine ⟨h, fun _ r member same => ?_, safe, plain⟩
  have before := new r member
  rw [same] at before
  exact absurd before (lt_irrefl _)

namespace Careful

variable {s : Stack}

theorem next {t : Stack} (h : Careful P s) (moves : Moves P s.session t.session) (queue : t.tcp.allSent)
    (same : t.history.requests = s.history.requests) (hop : t.hop = s.hop) (req : t.http.req = s.http.req)
    (sent : t.http.requestSent = s.http.requestSent)
    (safe : t.http.inProgress = true → t.http.useTls = true → Safe P t.session)
    (plain : t.http.phase = .resolving → t.http.useTls = false) : Careful P t := by
  refine ⟨h.toPosted.next moves queue same (by rw [hop]) (by rw [req]; exact h.req), ?_, safe, plain⟩
  rw [sent, same, hop]
  exact h.unsent

section

variable (h : Careful P s)

include h

theorem of_http {http : Client} (req : http.req = s.http.req)
    (sent : http.requestSent = s.http.requestSent) (tls : http.useTls = s.http.useTls)
    (active : http.inProgress = true → s.http.inProgress = true)
    (resolving : http.phase = .resolving → s.http.phase = .resolving) : Careful P { s with http := http } := by
  refine h.next .refl h.queue rfl rfl req sent ?_ ?_
  · exact fun on use => h.safe (active on) (tls.symm.trans use)
  · exact fun phase => tls.trans (h.plain (resolving phase))

theorem of_dns (dns : Dns.Resolver) : Careful P { s with dns := dns } :=
  h.next .refl h.queue rfl rfl rfl rfl h.safe h.plain

theorem of_ask (name : Bytes) : Careful P (s.ask env name).2 := by
  unfold ask
  dsimp only
  split
  · exact h.next .refl h.queue rfl rfl rfl rfl h.safe h.plain
  · exact h

theorem of_askTls (host : Bytes) : Careful P (s.askTls env host) := by
  unfold askTls
  split
  · exact h.of_ask env host
  · exact h

/-- A note in the history that is not about requests. -/
theorem of_history {history : History} (same : history.requests = s.history.requests) :
    Careful P { s with history := history } :=
  h.next .refl h.queue same rfl rfl rfl h.safe h.plain

theorem fail (code : UInt8) : Careful P (s.fail code) := by
  refine h.of_http rfl rfl rfl ?_ ?_
  · intro on
    cases on
  · intro resolving
    cases resolving

theorem withPhase (active : s.http.inProgress = true) {phase : Phase} (other : phase ≠ .resolving) :
    Careful P (s.withPhase phase) :=
  h.of_http rfl rfl rfl (fun _ => active) fun resolving => absurd resolving other

theorem resetTcp : Careful P s.resetTcp := by
  refine h.next (.single (.quiet s.session _ (.tcp _ _))) h.queue rfl rfl rfl rfl ?_ h.plain
  exact fun active tls => (h.safe active tls).tcp (List.Subset.refl _)

end

/-! ## The layers below -/

theorem transport (h : Careful P s) {op : Tcp.Op} (same : (s.tcp.step ⟨env.tcp, op⟩).stream = s.tcp.stream) :
    Careful P (s.transport P env op) := by
  refine h.next (Session.step_moves P s.session ⟨s.tlsEnv env [], .transport op⟩) ?_ rfl rfl rfl rfl ?_ h.plain
  · intro entry queued
    apply h.queue
    rw [← same]
    exact queued
  · have more : s.tcp.stream ⊆ (s.tcp.step ⟨env.tcp, op⟩).stream := by
      rw [same]
      exact List.Subset.refl _
    exact fun active tls => (h.safe active tls).tcp more

theorem connect (h : Careful P s) (ip : Ip) (plain : s.http.useTls = false) : Careful P (s.connect P env ip) := by
  refine h.next (Session.step_moves P s.session ⟨s.tlsEnv env [], .transport (.connect ip s.http.port)⟩)
    ?_ rfl rfl rfl rfl ?_ h.plain
  · intro entry queued
    cases queued
  · intro _ tls
    cases plain.symm.trans tls

theorem tickTls (h : Careful P s) (active : s.http.inProgress = true) (tls : s.http.useTls = true)
    (out : ∀ n, env.tcp.sends n = true) : Careful P (s.tickTls P env) := by
  have ticked : Careful P (s.call P ⟨s.tlsEnv env [], .tick⟩) := by
    refine h.next (Session.step_moves P s.session ⟨s.tlsEnv env [], .tick⟩) ?_ rfl rfl rfl rfl ?_ h.plain
    · exact tick_allSent P out h.queue
    · exact fun _ _ => (h.safe active tls).tick _
  unfold Stack.tickTls
  split
  · exact ticked
  split
  · exact ticked.of_dns _
  · exact ticked.of_history rfl
  · exact ticked

theorem tickTransport (h : Careful P s) (active : s.http.inProgress = true)
    (out : s.http.useTls = true → ∀ n, env.tcp.sends n = true) : Careful P (s.tickTransport P env) := by
  unfold Stack.tickTransport
  split
  next tls => exact h.tickTls env active tls (out tls)
  · exact h.transport env (Tcp.Tcb.tick_stream env.tcp s.tcp)

/-! ## Handing over the request -/

theorem handOver_refused (h : Careful P s) (can : s.CanSend env) (refused : s.accepts P env = false) :
    (s.handOver P env).session = s.session := by
  unfold accepts at refused
  unfold handOver handing call Session.step
  cases tls : s.http.useTls with
  | false =>
    rw [tls] at refused
    have kept : ¬ s.tcp.takes s.http.req := by
      intro taken
      rw [(Tcp.Tcb.send_taken env.tcp taken).1, can.plain tls taken] at refused
      cases refused
    have same : s.tcp.step ⟨env.tcp, .send s.http.req⟩ = s.tcp :=
      congrArg Prod.snd (Tcp.Tcb.send_refused env.tcp s.http.req s.tcp kept)
    show { s.session with tls := { s.session.tls with tcp := s.tcp.step ⟨env.tcp, .send s.http.req⟩ } } = s.session
    rw [same]
    rfl
  | true =>
    rw [tls] at refused
    have closed : s.session.tls.established = false := by
      by_contra established
      have established : s.session.tls.established = true := by simpa using established
      obtain ⟨opened, room⟩ := can.encrypted tls established
      have sent := Tls.send_accepted P (s.tlsEnv env []) h.history established
        (le_trans h.req (by decide)) opened room (can.frames tls _)
      cases sent.symm.trans refused
    unfold Tls.send
    rw [closed]
    rfl

theorem handOver_allSent (h : Careful P s) (can : s.CanSend env) : (s.handOver P env).tcp.allSent := by
  unfold handOver handing call Session.step
  cases tls : s.http.useTls with
  | false =>
    exact Tcp.Tcb.send_allSent env.tcp (can.plain tls) h.queue
  | true =>
    exact Tcp.allSent_of_uses env.tcp (can.frames tls)
      (Tls.send_uses P (s.tlsEnv env []) s.http.req s.session.tls).1 h.queue

/-- An encrypted request that is sent is in the stream. -/
theorem handOver_safe (h : Safe P s.session) (tls : s.http.useTls = true) (sent : s.accepts P env = true) :
    Safe P (s.handOver P env).session := by
  unfold accepts at sent
  rw [tls, if_pos rfl] at sent
  unfold handOver handing call Session.step
  rw [tls]
  show Safe P { s.session with tls := (s.session.tls.send P (s.tlsEnv env []) s.http.req).2 }
  unfold Tls.send at sent ⊢
  split at sent
  · cases sent
  rename_i established
  rw [if_neg established]
  have carries := Carries.sendRecord P (s.tlsEnv env []) sent
  refine ⟨fun alive => carries.carried P alive h.carried, fun connecting => ?_⟩
  obtain ⟨_, _, _, frame, -⟩ := Tls.sendRecord_frame P (s.tlsEnv env []) ctApplicationData s.http.req s.session.tls
  have before : s.session.tls.phase = .connecting := by
    rw [← connecting, frame]
  simp [Tls.established, before] at established

theorem sendRequest (h : Careful P s) (active : s.http.inProgress = true) (unsent : s.http.requestSent = false)
    (can : s.CanSend env) : Careful P (s.sendRequest P env) := by
  have moves : Moves P s.session (s.handOver P env).session := Session.step_moves P s.session _
  have queue := h.handOver_allSent env can
  have refused := h.handOver_refused env can
  have posted := h.toPosted.next (t := s.handOver P env) moves queue rfl le_rfl h.req
  have quiet : s.accepts P env = false → decide ((s.handOver P env).tcp.stream.length ≠ s.tcp.stream.length) = false ∧
        (s.handOver P env).session.tls.clientSeq = s.session.tls.clientSeq := by
    intro no
    unfold tcp
    rw [refused no]
    simp
  have requests : ∀ r ∈ s.history.requests, r.hop = s.hop → r.queued = false := h.unsent unsent
  have recorded : Posted P { s.handOver P env with
      history := { (s.handOver P env).history with
        requests := (s.handOver P env).history.requests ++ [⟨s.hop, s.handing, s.accepts P env,
          decide ((s.handOver P env).tcp.stream.length ≠ s.tcp.stream.length), s.session.tls.clientSeq,
          (s.handOver P env).session.tls.clientSeq⟩] } } := by
    refine ⟨posted.history, posted.fresh, posted.tally, posted.queue, ?_, ?_, ?_, posted.req⟩
    · intro r member no
      rcases mem_append.mp member with before | new
      · exact h.refused r before no
      rw [mem_singleton] at new
      subst new
      exact quiet no
    · refine pairwise_append.mpr ⟨h.once, pairwise_singleton _ _, ?_⟩
      intro a before b new same queued
      rw [mem_singleton] at new
      subst new
      rw [requests a before same] at queued
      cases queued
    · intro r member
      rcases mem_append.mp member with before | new
      · exact h.known r before
      rw [mem_singleton] at new
      subst new
      exact le_rfl
  unfold Stack.sendRequest
  dsimp only
  split
  next sent =>
    refine ⟨{ recorded with }, nofun, fun _ tls => ?_, nofun⟩
    exact handOver_safe env (h.safe active tls) tls sent
  rename_i no
  have no : s.accepts P env = false := by simpa using no
  refine ⟨recorded, fun _ r member same => ?_, fun _ tls => ?_, h.plain⟩
  · rcases mem_append.mp member with before | new
    · exact requests r before same
    rw [mem_singleton] at new
    subst new
    exact (quiet no).1
  · show Safe P (s.handOver P env).session
    rw [refused no]
    exact h.safe active tls

theorem tickSending (h : Careful P s) (phase : s.http.phase = .sending)
    (frames : s.http.useTls = true → ∀ n, env.tcp.sends n = true)
    (due : s.http.requestSent = false → (s.tickTransport P env).CanSend env) : Careful P (s.tickSending P env) := by
  have active : s.http.inProgress = true := by simp [Client.inProgress, phase]
  have ticked := h.tickTransport env active frames
  have same := (tickTransport_aside P env s).http
  have handed : Careful P ((s.tickTransport P env).sendOnce P env) := by
    unfold sendOnce
    split
    · exact ticked
    rename_i unsent
    rw [same] at unsent
    have unsent : s.http.requestSent = false := by simpa using unsent
    exact ticked.sendRequest env (by rw [same]; exact active) (by rw [same]; exact unsent) (due unsent)
  unfold Stack.tickSending
  dsimp only
  split
  · exact handed.fail 5
  · exact handed

/-! ## A new hop -/

end Careful

/-- Nothing has been handed over in this hop, and the client is idle. -/
structure Aimed (P : Primitives) (s : Stack) : Prop extends Posted P s where
  new : ∀ r ∈ s.history.requests, r.hop.number < s.hop.number
  idle : s.http.phase = .idle

theorem Posted.forget (h : Posted P s) (url : Bytes) : Aimed P (s.forget env url) := by
  refine ⟨h.next (.single (.quiet s.session _ (.tcp _ _))) h.queue rfl (le_succ _) h.req, ?_, rfl⟩
  intro r member
  exact lt_succ_of_le (h.known r member)

theorem Aimed.aim (h : Aimed P s) (t : Target) : Aimed P (s.aim t) := by
  refine ⟨h.toPosted.next .refl h.queue rfl le_rfl ?_, h.new, h.idle⟩
  exact length_take_le _ _

theorem Aimed.fail (h : Aimed P s) (code : UInt8) : Careful P (s.fail code) := by
  refine Posted.careful (h.toPosted.next .refl h.queue rfl le_rfl h.req) h.new (fun on => ?_) nofun
  cases on

theorem Aimed.beginTls (h : Aimed P s) (t : Target) : Careful P (s.beginTls P env t).2 := by
  have started : Careful P ((s.withPhase .connecting).call P ⟨(s.withPhase .connecting).tlsEnv env t.host,
      .start t.host t.port⟩) := by
    have moves := Session.step_moves P s.session ⟨(s.withPhase .connecting).tlsEnv env t.host, .start t.host t.port⟩
    refine Posted.careful (h.toPosted.next moves ?_ rfl le_rfl h.req) h.new
      (fun _ _ => Safe.start _ t.host t.port s.session.tls) nofun
    exact start_allSent _ t.host t.port h.queue
  have asked := started.of_askTls env t.host
  unfold Stack.beginTls
  dsimp only
  split
  · exact asked
  · exact asked.fail 4

theorem Aimed.withPhase (h : Aimed P s) (plain : s.http.useTls = false) (phase : Phase) :
    Careful P (s.withPhase phase) := by
  refine Posted.careful (h.toPosted.next .refl h.queue rfl le_rfl h.req) h.new (fun _ tls => ?_) fun _ => plain
  cases plain.symm.trans tls

theorem Aimed.beginPlain (h : Aimed P s) (plain : s.http.useTls = false) (t : Target) :
    Careful P (s.beginPlain P env t).2 := by
  unfold Stack.beginPlain
  split
  · exact (h.withPhase plain .connecting).connect env _ plain
  split
  · exact h.fail 2
  have asked := (h.withPhase plain .resolving).of_ask env t.host
  dsimp only
  split
  · exact asked
  · exact asked.fail 3

theorem Posted.begin (h : Posted P s) (url : Bytes) : Careful P (s.begin P env url).2 := by
  have forgot := h.forget env url
  unfold Stack.begin
  dsimp only
  split
  · exact forgot.fail 1
  rename_i t _
  split
  · exact (forgot.aim t).beginTls env t
  next plain => exact (forgot.aim t).beginPlain env (eq_false_of_ne_true plain) t

/-! ## Every call -/

namespace Careful

variable {s : Stack}

section

variable (h : Careful P s)

include h

theorem readHeaders : Careful P s.readHeaders := by
  unfold Stack.readHeaders
  split
  · exact h
  obtain ⟨kept, phase⟩ := parseHeaders_kept (s.rxReadAt 0 headerScan) s.http
  simp only [Prod.mk.injEq] at kept
  refine h.of_http kept.1 kept.2.1 kept.2.2 ?_ ?_
  · rcases phase with same | failed
    · simp [Client.inProgress, same]
    · simp [Client.inProgress, failed]
  · rcases phase with same | failed
    · rw [same]
      exact id
    rw [failed]
    exact Phase.noConfusion

theorem checkDeadline : Careful P (s.checkDeadline env) := by
  unfold Stack.checkDeadline
  split
  · exact h
  dsimp only
  split
  · exact h.of_http rfl rfl rfl id id
  split
  · exact (h.fail 7).resetTcp
  · exact h

theorem followRedirect : Careful P (s.followRedirect P env) := by
  have counted : Careful P { s with http := { s.http with hops := s.http.hops + 1 } } := h.of_http rfl rfl rfl id id
  unfold Stack.followRedirect
  dsimp only
  split
  · exact (counted.fail 8).resetTcp
  split
  · exact (counted.fail 1).resetTcp
  have noted : Careful P { s with
      http := { s.http with hops := s.http.hops + 1 }
      history := { s.history with redirects := s.history.redirects ++ [s.hop.fetch] } } := counted.of_history rfl
  exact noted.toPosted.begin env _

theorem tickResolving (phase : s.http.phase = .resolving) : Careful P (s.tickResolving P env) := by
  have looked := h.of_dns (s.dns.tick env.tcp.now)
  unfold Stack.tickResolving
  dsimp only
  split
  · have active : s.http.inProgress = true := by simp [Client.inProgress, phase]
    have taken := h.of_dns (s.dns.tick env.tcp.now).takeResult.2
    apply connect
    · exact taken.of_http rfl rfl rfl (fun _ => active) (fun _ => phase)
    · exact h.plain phase
  · exact (looked.fail 3).of_history rfl
  · exact looked

theorem tickConnectingTls (active : s.http.inProgress = true) (tls : s.http.useTls = true)
    (frames : ∀ n, env.tcp.sends n = true) : Careful P (s.tickConnectingTls P env) := by
  have ticked := h.tickTls env active tls frames
  have still : (s.tickTls P env).http.inProgress = true := by
    rw [(tickTls_aside P env s).http]
    exact active
  unfold Stack.tickConnectingTls
  dsimp only
  split
  · exact ticked.withPhase still nofun
  · exact ticked.fail 4
  · exact ticked.fail 4
  · exact ticked

theorem tickConnecting (active : s.http.inProgress = true) (plain : s.http.useTls = false) :
    Careful P (s.tickConnecting P env) := by
  have ticked : Careful P (s.transport P env .tick) := h.transport env (Tcp.Tcb.tick_stream env.tcp s.tcp)
  unfold Stack.tickConnecting
  dsimp only
  split
  · exact ticked.withPhase active nofun
  · exact ticked.fail 4
  · split
    · exact ticked.connect env _ plain
    · exact ticked
  · exact ticked

theorem tickReceiving (active : s.http.inProgress = true)
    (frames : s.http.useTls = true → ∀ n, env.tcp.sends n = true) : Careful P (s.tickReceiving P env).2 := by
  have read := (h.tickTransport env active frames).readHeaders
  have done : ∀ {t : Stack}, Careful P t → Careful P (t.withPhase .done) := by
    intro t careful
    exact careful.of_http rfl rfl rfl (fun on => by cases on) nofun
  unfold Stack.tickReceiving
  dsimp only
  split
  · exact read.followRedirect env
  split
  · exact done (read.transport env (Tcp.Tcb.close_stream env.tcp _))
  split
  · exact done read
  · exact read

theorem tickHttp (frames : s.http.inProgress = true → s.http.useTls = true → ∀ n, env.tcp.sends n = true)
    (due : s.http.phase = .sending → s.http.requestSent = false → (s.tickTransport P env).CanSend env) :
    Careful P (s.tickHttp P env) := by
  have active : s.http.phase = .resolving ∨ s.http.phase = .connecting ∨ s.http.phase = .sending ∨
      s.http.phase = .receiving → s.http.inProgress = true := by
    intro busy
    simpa [Client.inProgress, or_assoc] using busy
  unfold Stack.tickHttp
  split
  next phase => exact (h.tickResolving env phase).checkDeadline env
  next phase =>
    have active := active (.inr (.inl phase))
    split
    next tls => exact h.tickConnectingTls env active tls (frames active tls)
    next plain => exact (h.tickConnecting env active (by simpa using plain)).checkDeadline env
  next phase =>
    have active := active (.inr (.inr (.inl phase)))
    exact (h.tickSending env phase (frames active) (due phase)).checkDeadline env
  next phase =>
    have received := h.tickReceiving env (active (.inr (.inr (.inr phase))))
      (frames (active (.inr (.inr (.inr phase)))))
    dsimp only
    split
    · exact received
    · exact received.checkDeadline env
  · exact h.checkDeadline env

theorem tick (clear : s.Clear P env) : Careful P (s.tick P env) := by
  have polled : Careful P (({ s with dns := s.dns.tick env.tcp.now }).transport P env .tick) :=
    (h.of_dns _).transport env (Tcp.Tcb.tick_stream env.tcp s.tcp)
  exact polled.tickHttp env clear.frames clear.due

theorem receive (frame : Bytes) : Careful P (s.receive P env frame) := by
  unfold Stack.receive
  split
  · exact h
  split
  · exact h.transport env (Tcp.Tcb.handle_stream env.tcp _ _ s.tcp)
  split
  · exact h.next .refl h.queue rfl rfl rfl rfl h.safe h.plain
  · exact h

theorem step (c : Call) (ready : s.Ready P c) : Careful P (s.step P c) := by
  obtain ⟨env, event⟩ := c
  cases event with
  | start url =>
    apply Posted.begin
    exact h.toPosted.next .refl h.queue rfl le_rfl h.req
  | frame octets => exact h.receive env octets
  | tick => exact h.tick env ready
  | lookup name => exact h.next .refl h.queue rfl rfl rfl rfl h.safe h.plain
  | take => exact h.of_dns _
  | server ip => exact h.of_dns _

end

theorem boot (P : Primitives) (port : UInt16) : Careful P (.boot port) := by
  have fresh := fresh P [] rfl
  refine Posted.careful ⟨history P [], fun _ => fresh, fun _ => ?_, ?_, ?_, .nil, ?_, zero_le _⟩ ?_ ?_ ?_
  · exact .of_empty nofun rfl rfl fun _ => nofun
  all_goals simp [Stack.boot, Stack.tcp, Tcp.Tcb.allSent]

end Careful

/-- In every run in which frames go out and TCP has room when they are needed, sending is all or
nothing, in every state reached. -/
theorem sends_whole (P : Primitives) (port : UInt16) (calls : List Call)
    (ready : Along (step P) (Ready P) (.boot port) calls) : Throughout (step P) (Whole P) (.boot port) calls := by
  have careful := ready.throughout (Careful P) (fun _ c h ok => h.step c ok) (.boot P port)
  exact careful.mono fun _ h => h.whole P

/-- A link over which frames go out or do not. -/
def linkEnv (now : UInt64) (up : Bool) : Env :=
  ⟨⟨now, 0, 40000, ⟨10, 0, 2, 15⟩, fun _ => up⟩, fun _ _ => 0, fun _ => true⟩

/-- A plain fetch from a server that answers, with the link as it is when the request is first handed over. -/
def plainFetch (up : Bool) : List Call :=
  [⟨linkEnv 0 true, .start (ascii "http://10.0.2.2/")⟩,
    ⟨linkEnv 1 true, .frame (Tcp.peerFrame (Tcp.peerSegment 100 0x12 1 []))⟩,
    ⟨linkEnv 2 true, .tick⟩, ⟨linkEnv 3 up, .tick⟩, ⟨linkEnv 4 true, .tick⟩]

/-- Over plain HTTP it is enough that frames go out. -/
theorem plain_clear (plain : s.http.useTls = false) (out : ∀ n, env.tcp.sends n = true) : s.Clear P env := by
  have same : (s.atSend P env).http = s.http := (tickTransport_aside P env _).http
  have never : ¬ s.http.useTls = true := by simp [plain]
  refine ⟨fun _ tls => absurd tls never, fun _ _ => ⟨fun _ _ => out _, ?_, ?_⟩⟩
  · rw [same]
    exact fun tls => absurd tls never
  · rw [same]
    exact fun tls => absurd tls never

theorem plainFetch_whole : Along (step samplePrimitives) (Ready samplePrimitives) (.boot 0) (plainFetch true) ∧
      (run (step samplePrimitives) (.boot 0) (plainFetch true)).history.requests.map
        (fun r => (r.sent, r.queued)) = [(true, true)] ∧
      Throughout (step samplePrimitives) (Whole samplePrimitives) (.boot 0) (plainFetch true) :=
  have ready : Along (step samplePrimitives) (Ready samplePrimitives) (.boot 0) (plainFetch true) :=
    ⟨trivial, trivial, plain_clear _ (by decide +kernel) fun _ => rfl, plain_clear _ (by decide +kernel) fun _ => rfl,
      plain_clear _ (by decide +kernel) fun _ => rfl, trivial⟩
  ⟨ready, by decide +kernel, sends_whole samplePrimitives 0 (plainFetch true) ready⟩

/-- The frame of the request does not go out: the request stays in the queue, is handed over again and is
in the stream twice. -/
theorem request_sent_twice : ¬ ∀ (P : Primitives) (port : UInt16) (calls : List Call),
    Throughout (step P) (Whole P) (.boot port) calls := by
  intro always
  have once := (always samplePrimitives 0 (plainFetch false)).last.once
  revert once
  decide +kernel

end BarryOS.Net.Http
