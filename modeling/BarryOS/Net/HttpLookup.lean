import BarryOS.Crypto.TlsTransport
import BarryOS.Net.HttpRedirect
import BarryOS.Net.TcpSyn

/-!
# Whose lookup it is

The state of a lookup and its result are global, and three machines look at them: the plain
fetch while it is resolving, TLS while it is connecting, and other programs. `Honest` is what
makes the address a hop connects to its own: while a hop waits for a name, the lookup is the
hop's. An https hop to an address looks at DNS too, and takes whatever lookup it finds there.
-/

namespace BarryOS.Net

theorem Tcp.Kept.of_uses {env : Tcp.Env} {s t : Tcp.Tcb} (used : Crypto.Uses env s t) : Tcp.Kept s t := by
  induction used with
  | refl s => exact refl s
  | trans _ _ first second => exact first.trans second
  | tick s => exact tick env s
  | send s data => exact send env data s
  | close s => exact close env s
  | reset s => exact reset s
  | release s n => exact rxRelease env n s

namespace Http

open Lib List

variable (P : Crypto.Primitives) (env : Env)

/-! ## Where SYNs may go -/

namespace History

/-- The address written in the hop's URL. -/
def Literal (hop : Hop) (dest : UInt32) : Prop :=
  ∃ ip, Crypto.Tls.parseIp hop.host = some ip ∧ ip.toU32 = dest

/-- An address from an answer to the query for the hop's own host. -/
def Answered (h : History) (hop : Hop) (dest : UInt32) : Prop :=
  ∃ q ∈ h.queries, ∃ a ∈ h.answers, q.hop = hop ∧ a.lookup = q.lookup ∧ a.id = q.id ∧ a.ip = dest

def Right (h : History) (hop : Hop) (dest : UInt32) : Prop := Literal hop dest ∨ h.Answered hop dest

/-- Every SYN goes where the URL says, and no hop fails for another's lookup. -/
structure Faithful (h : History) : Prop where
  syns : ∀ syn ∈ h.syns, h.Right syn.hop syn.dest
  refusals : ∀ r ∈ h.refusals, ∃ q ∈ h.queries, q.hop = r.hop ∧ q.lookup = r.lookup

end History

namespace Stack

/-- The host is a name. -/
def named (s : Stack) : Bool := (Crypto.Tls.parseIp s.http.target).isNone

/-- An https hop that still looks at DNS. -/
def connectingTls (s : Stack) : Bool :=
  s.http.phase = .connecting && s.http.useTls && s.session.tls.phase = .connecting

/-- The hop waits for a name. -/
def looking (s : Stack) : Bool := s.http.phase = .resolving || s.connectingTls && s.named

/-- What has to hold when a call is made: no other program starts a lookup while a hop waits for a
name; an https hop to an address finds DNS idle; a plain hop to an address whose connection is
closed again does not find the address of an earlier hop. -/
def Undisturbed (s : Stack) (c : Call) : Prop :=
  match c.event with
  | .lookup _ => s.looking = false
  | .tick =>
    (s.connectingTls = true → s.named = false → s.dns.state = .idle) ∧
      (s.http.phase = .connecting → s.http.useTls = false → s.tcp.state = .closed →
        ∀ ip ∈ Crypto.Tls.parseIp s.http.target, s.http.remote = 0 ∨ s.http.remote = ip.toU32)
  | _ => True

instance (s : Stack) (c : Call) : Decidable (s.Undisturbed c) :=
  match c with
  | ⟨_, .lookup _⟩ => inferInstanceAs (Decidable (s.looking = false))
  | ⟨_, .tick⟩ => inferInstanceAs (Decidable (_ ∧ _))
  | ⟨_, .start _⟩ | ⟨_, .frame _⟩ | ⟨_, .take⟩ | ⟨_, .server _⟩ => isTrue trivial

end Stack

/-! ## The invariant -/

/-- The lookup that DNS is at is the hop's. -/
def Stack.OwnLookup (s : Stack) : Prop :=
  ∃ q ∈ s.history.queries, q.hop = s.hop ∧ q.lookup = s.history.lookups ∧ q.id = s.dns.queryId

/-- The part that does not depend on the phase. -/
structure Sober (s : Stack) : Prop where
  faithful : s.history.Faithful
  syn : s.tcp.state = .synSent → s.history.Right s.hop s.tcp.remoteIp
  answer : s.dns.state = .answered → ∃ a ∈ s.history.answers,
    a.lookup = s.history.lookups ∧ a.id = s.dns.queryId ∧ a.ip = s.dns.result

structure Honest (s : Stack) : Prop extends Sober s where
  own : s.looking = true → s.dns.state ≠ .idle → s.OwnLookup
  remote : s.http.phase = .connecting → s.http.useTls = false → s.named = true → s.history.Right s.hop s.http.remote
  host : s.http.inProgress = true → s.hop.host = s.http.target
  plain : s.http.phase = .resolving → s.http.useTls = false
  settled : s.http.phase = .sending ∨ s.http.phase = .receiving → s.http.useTls = true →
    s.session.tls.phase ≠ .connecting

/-! ## What does not depend on the phase -/

theorem History.Right.mono {h k : History} {hop : Hop} {dest : UInt32} (right : h.Right hop dest)
    (queries : h.queries ⊆ k.queries) (answers : h.answers ⊆ k.answers) : k.Right hop dest := by
  rcases right with literal | ⟨q, asked, a, came, same⟩
  · exact .inl literal
  · exact .inr ⟨q, queries asked, a, answers came, same⟩

theorem History.Faithful.more {h : History} (faithful : h.Faithful) {hop : Hop} {dests : List UInt32}
    (right : ∀ dest ∈ dests, h.Right hop dest) :
    History.Faithful { h with syns := h.syns ++ dests.map fun dest => ⟨hop, dest⟩ } := by
  refine ⟨?_, faithful.refusals⟩
  intro syn member
  rcases mem_append.mp member with early | late
  · exact faithful.syns syn early
  obtain ⟨dest, sent, rfl⟩ := mem_map.mp late
  exact right dest sent

namespace Sober

variable {s : Stack}

/-- The connection goes on as it was opened. -/
theorem call {c : Crypto.Call} (h : Sober s) (kept : Tcp.Kept s.tcp (s.session.step P c).tls.tcp) :
    Sober (s.call P c) := by
  obtain ⟨new, grown, there⟩ := kept.syns
  refine ⟨?_, ?_, h.answer⟩
  · unfold Stack.call
    dsimp only
    rw [grown, drop_left]
    apply h.faithful.more
    intro dest sent
    obtain ⟨syn, rfl⟩ := there dest sent
    exact h.syn syn
  · intro syn
    obtain ⟨before, remote⟩ := kept.state syn
    have right := h.syn before
    rw [← remote] at right
    exact right

/-- The connection is opened again, to the right place. -/
theorem call_connect {c : Crypto.Call} {tcp : Tcp.Tcb} {e : Tcp.Env} {ip : Ip} {port : UInt16} (h : Sober s)
    (kept : Tcp.Kept s.tcp tcp) (opened : (s.session.step P c).tls.tcp = (tcp.connect e ip port).2)
    (right : s.history.Right s.hop ip.toU32) : Sober (s.call P c) := by
  obtain ⟨new, grown, there⟩ := kept.syns
  have syns : (s.session.step P c).tls.tcp.syns = s.tcp.syns ++ (new ++ [ip.toU32]) := by
    rw [opened, (Tcp.connect_syns e ip port tcp).1, grown, append_assoc]
  refine ⟨?_, ?_, h.answer⟩
  · unfold Stack.call
    dsimp only
    rw [syns, drop_left]
    apply h.faithful.more
    intro dest sent
    rcases mem_append.mp sent with again | first
    · obtain ⟨syn, rfl⟩ := there dest again
      exact h.syn syn
    rw [mem_singleton.mp first]
    exact right
  · intro _
    show s.history.Right s.hop (s.session.step P c).tls.tcp.remoteIp
    rw [opened]
    exact right

section

variable (h : Sober s)

include h

theorem connect {ip : Ip} (right : s.history.Right s.hop ip.toU32) : Sober (s.connect P env ip) :=
  h.call_connect P (.refl s.tcp) rfl right

theorem transport (op : Tcp.Op) (other : ∀ ip port, op ≠ .connect ip port) : Sober (s.transport P env op) := by
  apply h.call P
  exact Tcp.Kept.step (c := ⟨env.tcp, op⟩) s.tcp other

theorem resetTcp : Sober s.resetTcp := ⟨h.faithful, fun syn => Tcp.State.noConfusion syn, h.answer⟩

theorem of_http (http : Client) : Sober { s with http := http } := ⟨h.faithful, h.syn, h.answer⟩

theorem fail (code : UInt8) : Sober (s.fail code) := h.of_http _

theorem ask (name : Bytes) : Sober (s.ask env name).2 := by
  unfold Stack.ask
  dsimp only
  split
  next accepted =>
    have more : s.history.queries ⊆ s.history.queries ++
        [⟨s.hop, s.history.lookups + 1, (s.dns.start env.tcp.now name).2.queryId⟩] := subset_append_left _ _
    refine ⟨⟨?_, ?_⟩, ?_, ?_⟩
    · intro syn member
      exact (h.faithful.syns syn member).mono more (List.Subset.refl _)
    · intro r member
      obtain ⟨q, asked, same⟩ := h.faithful.refusals r member
      exact ⟨q, more asked, same⟩
    · intro syn
      exact (h.syn syn).mono more (List.Subset.refl _)
    · intro answered
      rcases Dns.Resolver.start_state accepted with waiting | failed
      · rw [waiting] at answered
        cases answered
      rw [failed] at answered
      cases answered
  · exact h

theorem askTls (host : Bytes) : Sober (s.askTls env host) := by
  unfold Stack.askTls
  split
  · exact h.ask env host
  · exact h

theorem tickDns (now : UInt64) : Sober { s with dns := s.dns.tick now } := by
  obtain ⟨id, result, same | ⟨-, failed⟩⟩ := Dns.Resolver.tick_state now s.dns
  · refine ⟨h.faithful, h.syn, fun answered => ?_⟩
    rw [show ({ s with dns := s.dns.tick now } : Stack).dns.state = s.dns.state from same] at answered
    rw [id, result]
    exact h.answer answered
  · refine ⟨h.faithful, h.syn, fun answered => ?_⟩
    cases failed.symm.trans answered

theorem takeResult : Sober { s with dns := s.dns.takeResult.2 } := by
  refine ⟨h.faithful, h.syn, ?_⟩
  unfold Dns.Resolver.takeResult
  split
  · exact h.answer
  · exact fun idle => Dns.State.noConfusion idle

/-- The hop gives up, since its own lookup has failed. -/
theorem refuse (own : s.OwnLookup) : Sober { s with
    history := { s.history with refusals := s.history.refusals ++ [⟨s.hop, s.history.lookups⟩] } } := by
  refine ⟨⟨h.faithful.syns, ?_⟩, h.syn, h.answer⟩
  intro r member
  rcases mem_append.mp member with early | late
  · exact h.faithful.refusals r early
  rw [mem_singleton.mp late]
  obtain ⟨q, asked, hop, lookup, -⟩ := own
  exact ⟨q, asked, hop, lookup⟩

/-- What the hop's own lookup has found. -/
theorem right (own : s.OwnLookup) (answered : s.dns.state = .answered) :
    s.history.Right s.hop (Ip.ofU32 s.dns.result).toU32 := by
  obtain ⟨q, asked, hop, lookup, id⟩ := own
  obtain ⟨a, came, lookup', id', ip⟩ := h.answer answered
  rw [Ip.toU32_ofU32]
  exact .inr ⟨q, asked, a, came, hop, lookup'.trans lookup.symm, id'.trans id.symm, ip⟩

end

end Sober

/-! ## A new hop -/

variable {s : Stack}

theorem looking_iff : s.looking = true ↔ s.http.phase = .resolving ∨ s.http.phase = .connecting ∧ s.http.useTls = true ∧
      s.session.tls.phase = .connecting ∧ s.named = true := by
  simp [Stack.looking, Stack.connectingTls, and_assoc]

theorem Sober.stopped (h : Sober s) (ended : s.http.phase = .idle ∨ s.http.phase = .done ∨ s.http.phase = .failed) :
    Honest s where
  toSober := h
  own := by
    intro looking
    rcases looking_iff.mp looking with phase | ⟨phase, -⟩ <;> simp [phase] at ended
  remote := by
    intro phase
    simp [phase] at ended
  host := by
    intro busy
    rcases ended with phase | phase | phase <;> simp [Client.inProgress, phase] at busy
  plain := by
    intro phase
    simp [phase] at ended
  settled := by
    intro busy
    rcases busy with phase | phase <;> simp [phase] at ended

theorem ask_own {name : Bytes} (accepted : (s.ask env name).1 = true) : (s.ask env name).2.OwnLookup := by
  unfold Stack.ask at accepted ⊢
  dsimp only at accepted ⊢
  split at accepted
  next started =>
    rw [if_pos started]
    exact ⟨_, mem_append_right _ (mem_singleton_self _), rfl, rfl, rfl⟩
  · cases accepted

theorem ask_answer (name : Bytes) (s : Stack) : (s.ask env name).1 = (s.dns.start env.tcp.now name).1 := by
  unfold Stack.ask
  dsimp only
  split
  next started => exact started.symm
  next refused => exact (Bool.eq_false_iff.mpr refused).symm

theorem Sober.asked {name : Bytes} (h : Sober s) (accepted : (s.ask env name).1 = true)
    (phase : s.http.phase = .connecting ∧ s.http.useTls = true ∨ s.http.phase = .resolving ∧ s.http.useTls = false)
    (host : s.hop.host = s.http.target) : Honest (s.ask env name).2 := by
  obtain ⟨http, hop, -, -⟩ := ask_aside env name s
  refine ⟨h.ask env name, fun _ _ => ask_own env accepted, ?_, ?_, ?_, ?_⟩
  · rw [http]
    intro connecting plain
    rcases phase with ⟨-, tls⟩ | ⟨resolving, -⟩
    · rw [tls] at plain
      cases plain
    rw [resolving] at connecting
    cases connecting
  · rw [http, hop]
    exact fun _ => host
  · rw [http]
    intro resolving
    rcases phase with ⟨connecting, -⟩ | ⟨-, plain⟩
    · rw [connecting] at resolving
      cases resolving
    · exact plain
  · rw [http]
    intro later
    rcases phase with ⟨now, -⟩ | ⟨now, -⟩ <;> simp [now] at later

theorem Sober.beginTls {t : Target} (h : Sober s) (tls : s.http.useTls = true) (host : s.hop.host = t.host)
    (target : s.http.target = t.host) : Honest (s.beginTls P env t).2 := by
  unfold Stack.beginTls
  dsimp only
  have moved : Sober (s.withPhase .connecting) := h.of_http _
  cases literal : Crypto.Tls.parseIp t.host with
  | some ip =>
    have started := Crypto.Tls.start_literal ((s.withPhase .connecting).tlsEnv env t.host) literal t.port
      (s.withPhase .connecting).session.tls
    have opened : Sober ((s.withPhase .connecting).call P
        ⟨(s.withPhase .connecting).tlsEnv env t.host, .start t.host t.port⟩) :=
      moved.call_connect P (.reset _) started.2.2 (.inl ⟨ip, by rw [← literal, ← host]; rfl, rfl⟩)
    have asked : ∀ u : Stack, u.askTls env t.host = u := by
      intro u
      unfold Stack.askTls
      rw [literal]
      rfl
    rw [if_pos started.1, asked]
    refine ⟨opened, ?_, ?_, fun _ => host.trans target.symm, nofun, ?_⟩
    · intro looking
      rcases looking_iff.mp looking with phase | ⟨-, -, -, named⟩
      · cases phase
      have named : (Crypto.Tls.parseIp s.http.target).isNone = true := named
      rw [target, literal] at named
      cases named
    · intro _ plain
      rw [show s.http.useTls = false from plain] at tls
      cases tls
    · rintro (phase | phase) <;> cases phase
  | none =>
    have started := Crypto.Tls.start_named ((s.withPhase .connecting).tlsEnv env t.host) literal t.port
      (s.withPhase .connecting).session.tls
    have kept : Tcp.Kept s.tcp ((s.withPhase .connecting).session.tls.start
        ((s.withPhase .connecting).tlsEnv env t.host) t.host t.port).2.tcp := by
      rw [started.1]
      exact .reset _
    have opened := moved.call P (c := ⟨(s.withPhase .connecting).tlsEnv env t.host, .start t.host t.port⟩) kept
    split
    next accepted =>
      obtain ⟨server, starts⟩ := started.2 accepted
      have asks : ∀ u : Stack, u.dns = s.dns → u.askTls env t.host = (u.ask env t.host).2 := by
        intro u same
        unfold Stack.askTls
        rw [literal, same]
        exact if_pos server
      rw [asks ((s.withPhase .connecting).call P _) rfl]
      refine opened.asked env ?_ (.inl ⟨rfl, tls⟩) (host.trans target.symm)
      rw [ask_answer]
      exact starts
    · exact (Sober.fail (opened.askTls env t.host) 4).stopped (.inr (.inr rfl))

theorem Sober.beginPlain {t : Target} (h : Sober s) (plain : s.http.useTls = false)
    (host : s.hop.host = t.host) (target : s.http.target = t.host) : Honest (s.beginPlain P env t).2 := by
  unfold Stack.beginPlain
  split
  next ip literal =>
    have moved : Sober (s.withPhase .connecting) := h.of_http _
    have right : s.history.Right s.hop ip.toU32 := .inl ⟨ip, by rw [← literal, ← host], rfl⟩
    have opened := moved.connect P env right
    refine ⟨opened, ?_, ?_, fun _ => host.trans target.symm, nofun, ?_⟩
    · intro looking
      rcases looking_iff.mp looking with phase | ⟨-, tls, -⟩
      · cases phase
      rw [show s.http.useTls = true from tls] at plain
      cases plain
    · intro _ _ named
      have named : (Crypto.Tls.parseIp s.http.target).isNone = true := named
      rw [target, literal] at named
      cases named
    · rintro (phase | phase) <;> cases phase
  · split
    · exact (h.fail 2).stopped (.inr (.inr rfl))
    have moved : Sober (s.withPhase .resolving) := h.of_http _
    dsimp only
    split
    next accepted => exact moved.asked env accepted (.inr ⟨rfl, plain⟩) (host.trans target.symm)
    · exact ((moved.ask env t.host).fail 3).stopped (.inr (.inr rfl))

theorem Honest.begin (faithful : s.history.Faithful) (answer : s.dns.state = .answered → ∃ a ∈ s.history.answers,
      a.lookup = s.history.lookups ∧ a.id = s.dns.queryId ∧ a.ip = s.dns.result) (url : Bytes) :
    Honest (s.begin P env url).2 := by
  have forgot : Sober (s.forget env url) := ⟨faithful, fun syn => Tcp.State.noConfusion syn, answer⟩
  unfold Stack.begin
  dsimp only
  split
  · exact (forgot.fail 1).stopped (.inr (.inr rfl))
  rename_i t aimed
  have host : ((s.forget env url).aim t).hop.host = t.host := by
    show ((Http.target url).map Target.host).getD [] = t.host
    rw [aimed]
    rfl
  split
  next tls => exact (forgot.of_http _).beginTls P env tls host rfl
  next plain => exact (forgot.of_http _).beginPlain P env (by simpa using plain) host rfl

end Http

end BarryOS.Net
