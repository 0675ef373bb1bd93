import BarryOS.Crypto.TlsTrust
import BarryOS.Net.HttpLookup

/-!
# Where a fetch connects to

Every arm of `tick` keeps `Honest`, as long as nobody disturbs a hop that waits for a name and
an https hop to an address finds DNS idle.
-/

namespace BarryOS.Net.Http

open Lib Crypto Stack

variable (P : Crypto.Primitives) (env : Env)

/-! ## The hop goes on -/

namespace Honest

variable {s : Stack}

section

variable (h : Honest s)

include h

/-- A call into TLS or TCP that leaves the client and DNS alone. -/
theorem call {c : Crypto.Call} (sober : Sober (s.call P c))
    (back : (s.session.step P c).tls.phase = .connecting → s.session.tls.phase = .connecting) :
    Honest (s.call P c) := by
  refine ⟨sober, ?_, h.remote, h.host, h.plain, fun busy tls after => h.settled busy tls (back after)⟩
  intro looking busy
  apply h.own _ busy
  rcases looking_iff.mp looking with phase | ⟨phase, tls, handshake, named⟩
  · exact looking_iff.mpr (.inl phase)
  · exact looking_iff.mpr (.inr ⟨phase, tls, back handshake, named⟩)

theorem transport (op : Tcp.Op) (other : ∀ ip port, op ≠ .connect ip port) : Honest (s.transport P env op) :=
  h.call P (h.toSober.transport P env op other) id

theorem tickDns (now : UInt64) : Honest { s with dns := s.dns.tick now } := by
  refine ⟨h.toSober.tickDns now, ?_, h.remote, h.host, h.plain, h.settled⟩
  intro looking busy
  obtain ⟨id, -, state⟩ := Dns.Resolver.tick_state now s.dns
  have before : s.dns.state ≠ .idle := by
    rcases state with same | ⟨waiting, -⟩
    · rw [← same]
      exact busy
    rw [waiting]
    exact Dns.State.noConfusion
  obtain ⟨q, asked, hop, lookup, same⟩ := h.own looking before
  exact ⟨q, asked, hop, lookup, same.trans id.symm⟩

/-- The client moves on, and no longer looks at DNS. -/
theorem withHttp {http : Client} (target : http.target = s.http.target)
    (tls : http.useTls = s.http.useTls) (active : http.inProgress = true → s.http.inProgress = true)
    (later : http.phase ≠ .resolving ∧ http.phase ≠ .connecting)
    (settled : http.phase = .sending ∨ http.phase = .receiving → s.http.useTls = true →
      s.session.tls.phase ≠ .connecting) : Honest { s with http := http } where
  toSober := h.toSober.of_http http
  own := by
    intro looking
    rcases looking_iff.mp looking with phase | ⟨phase, -⟩
    · exact absurd phase later.1
    · exact absurd phase later.2
  remote := fun phase => absurd phase later.2
  host := fun busy => (h.host (active busy)).trans target.symm
  plain := fun phase => absurd phase later.1
  settled := fun busy on => settled busy (tls ▸ on)

theorem fail (code : UInt8) : Honest (s.fail code) := (h.toSober.fail code).stopped (.inr (.inr rfl))

theorem done : Honest (s.withPhase .done) := (h.toSober.of_http _).stopped (.inr (.inl rfl))

/-- After a tick of TLS: what DNS has found is taken, and what it has not found is blamed on the
lookup of this very hop. -/
theorem tickTls (looks : s.session.tls.phase = .connecting → s.connectingTls = true)
    (calm : s.connectingTls = true → s.named = false → s.dns.state = .idle) : Honest (s.tickTls P env) ∧
      ((s.tickTls P env).session.tls.phase = .connecting → s.session.tls.phase = .connecting) := by
  have back : (s.session.tick P (s.tlsEnv env [])).tls.phase = .connecting → s.session.tls.phase = .connecting := by
    intro after
    by_contra busy
    exact Session.tick_busy P _ busy after
  have goesOn : Sober (s.call P ⟨s.tlsEnv env [], .tick⟩) → Honest (s.call P ⟨s.tlsEnv env [], .tick⟩) :=
    fun sober => h.call P sober back
  have quiet : (s.session.tls.phase = .connecting → s.dns.state ≠ .answered) →
      Sober (s.call P ⟨s.tlsEnv env [], .tick⟩) := by
    intro unanswered
    refine h.toSober.call P (.of_uses (Session.tick_uses P (s.tlsEnv env []) s.session ?_))
    intro connecting ip resolved
    apply unanswered connecting
    dsimp only [tlsEnv] at resolved
    split at resolved
    · assumption
    · cases resolved
    · cases resolved
  unfold Stack.tickTls
  split
  next busy => exact ⟨goesOn (quiet fun connecting => absurd connecting busy), back⟩
  rename_i connecting
  have connecting : s.session.tls.phase = .connecting := by simpa using connecting
  refine ⟨?_, fun _ => connecting⟩
  have own : s.dns.state ≠ .idle → s.OwnLookup := by
    intro busy
    have on := looks connecting
    refine h.own ?_ busy
    cases named : s.named with
    | false => exact absurd (calm on named) busy
    | true => simp [looking, on, named]
  split
  next answered =>
    have mine := own (by simp [answered])
    have resolved : (s.tlsEnv env []).dns = .resolved (some (Ip.ofU32 s.dns.result)) := by
      simp [tlsEnv, answered]
    have opened := Session.tick_connects P (s.tlsEnv env []) connecting resolved
    have sober := h.toSober.call_connect P (c := ⟨s.tlsEnv env [], .tick⟩) (.tick env.tcp s.tcp)
      (congrArg Tls.tcp opened) (h.toSober.right mine answered)
    have taken : s.dns.takeResult.2.state = .idle := by simp [Dns.Resolver.takeResult, answered]
    exact { goesOn sober with
      toSober := sober.takeResult
      own := fun _ busy => absurd taken busy }
  next failed =>
    have mine := own (by simp [failed])
    have went := goesOn (quiet fun _ => by simp [failed])
    exact { went with
      toSober := went.toSober.refuse mine
      own := went.own }
  next unanswered _ => exact goesOn (quiet fun _ => unanswered)

/-- Once the connection is up neither transport looks at DNS. -/
theorem tickTransport (phase : s.http.phase = .sending ∨ s.http.phase = .receiving) :
    Honest (s.tickTransport P env) := by
  unfold Stack.tickTransport
  split
  next tls =>
    refine (h.tickTls P env (fun connecting => absurd connecting (h.settled phase tls)) ?_).1
    intro on
    rcases phase with phase | phase <;> simp [connectingTls, phase] at on
  · exact h.transport P env _ (by simp)

theorem tickConnectingTls (phase : s.http.phase = .connecting) (tls : s.http.useTls = true)
    (calm : s.connectingTls = true → s.named = false → s.dns.state = .idle) : Honest (s.tickConnectingTls P env) := by
  have ticked := (h.tickTls P env (fun connecting => by simp [connectingTls, phase, tls, connecting]) calm).1
  have http := (tickTls_aside P env s).http
  unfold Stack.tickConnectingTls
  dsimp only
  split
  next established =>
    refine ticked.withHttp rfl rfl (fun _ => ?_) ⟨Phase.noConfusion, Phase.noConfusion⟩ ?_
    · simp [http, phase, Client.inProgress]
    · intro _ _
      rw [established]
      exact Crypto.Phase.noConfusion
  · exact ticked.fail 4
  · exact ticked.fail 4
  · exact ticked

theorem tickConnecting (phase : s.http.phase = .connecting) (plain : s.http.useTls = false)
    (known : s.tcp.state = .closed → ∀ ip ∈ Tls.parseIp s.http.target,
      s.http.remote = 0 ∨ s.http.remote = ip.toU32) : Honest (s.tickConnecting P env) := by
  have ticked := h.transport P env .tick (by simp)
  unfold Stack.tickConnecting
  dsimp only
  split
  · refine ticked.withHttp rfl rfl (fun _ => ?_) ⟨nofun, nofun⟩ ?_
    · simp [Stack.transport, Stack.call, phase, Client.inProgress]
    · intro _ tls
      rw [show s.http.useTls = true from tls] at plain
      cases plain
  · exact ticked.fail 4
  next closed =>
    split
    next again =>
      simp only [decide_not, Bool.and_eq_true, Bool.not_eq_true', decide_eq_false_iff_not] at again
      have before : s.tcp.state = .closed := by
        rcases Tcp.Tcb.tick_state env.tcp s.tcp with same | failed
        · exact same.symm.trans closed
        · cases failed.symm.trans closed
      have right : s.history.Right s.hop (Ip.ofU32 s.http.remote).toU32 := by
        rw [Ip.toU32_ofU32]
        cases literal : Tls.parseIp s.http.target with
        | none => exact h.remote phase plain (by simp [named, literal])
        | some ip =>
          rcases known before ip literal with zero | same
          · exfalso
            apply again.1
            show Ip.ofU32 s.http.remote = _
            rw [zero]
            rfl
          refine .inl ⟨ip, ?_, same.symm⟩
          rw [h.host (by simp [phase, Client.inProgress])]
          exact literal
      exact ticked.call P (ticked.toSober.connect P env right) id
    · exact ticked
  · exact ticked

theorem tickResolving (phase : s.http.phase = .resolving) : Honest (s.tickResolving P env) := by
  have ticked := h.tickDns env.tcp.now
  unfold Stack.tickResolving
  dsimp only
  have own : (s.dns.tick env.tcp.now).state ≠ .idle → ({ s with dns := s.dns.tick env.tcp.now } : Stack).OwnLookup :=
    fun busy => ticked.own (looking_iff.mpr (.inl phase)) busy
  split
  next answered =>
    have right := ticked.toSober.right (own (by simp [answered])) answered
    have taken := ticked.toSober.takeResult
    refine ⟨?_, ?_, ?_, fun _ => h.host (by simp [phase, Client.inProgress]), nofun, ?_⟩
    · exact (taken.of_http { s.http with
        phase := .connecting, remote := (Ip.ofU32 (s.dns.tick env.tcp.now).result).toU32 }).connect P env right
    · intro looking
      rcases looking_iff.mp looking with resolving | ⟨-, tls, -⟩
      · cases resolving
      have plain := h.plain phase
      rw [show s.http.useTls = true from tls] at plain
      cases plain
    · exact fun _ _ _ => right
    · rintro (busy | busy) <;> cases busy
  next failed => exact ((ticked.toSober.refuse (own (by simp [failed]))).fail 3).stopped (.inr (.inr rfl))
  · exact ticked

end

/-! ## Requests and responses -/

theorem handOver (h : Honest s) : Honest (s.handOver P env) ∧
    (s.handOver P env).session.tls.phase = s.session.tls.phase := by
  unfold Stack.handOver handing
  split
  · obtain ⟨used, phase⟩ := Tls.send_uses P (s.tlsEnv env []) s.http.req s.session.tls
    have sober := h.toSober.call P (c := ⟨s.tlsEnv env [], .send s.http.req⟩) (.of_uses used)
    exact ⟨h.call P sober fun connecting => phase.symm.trans connecting, phase⟩
  · exact ⟨h.transport P env (.send s.http.req) (by simp), rfl⟩

theorem sendOnce (h : Honest s) (phase : s.http.phase = .sending) : Honest (s.sendOnce P env) := by
  unfold Stack.sendOnce
  split
  · exact h
  obtain ⟨handed, handshake⟩ := h.handOver P env
  have noted : Honest { s.handOver P env with
      history := { (s.handOver P env).history with
        requests := (s.handOver P env).history.requests ++ [⟨s.hop, s.handing, s.accepts P env,
          (s.handOver P env).tcp.stream.length ≠ s.tcp.stream.length, s.session.tls.clientSeq,
          (s.handOver P env).session.tls.clientSeq⟩] } } :=
    ⟨⟨⟨handed.faithful.syns, handed.faithful.refusals⟩, handed.syn, handed.answer⟩, handed.own, handed.remote,
      handed.host, handed.plain, handed.settled⟩
  unfold sendRequest
  dsimp only
  split
  · refine noted.withHttp rfl rfl (fun _ => ?_) ⟨nofun, nofun⟩ ?_
    · simp [Stack.handOver, Stack.call, phase, Client.inProgress]
    · intro _ tls
      rw [handshake]
      exact h.settled (.inl phase) tls
  · exact noted

theorem tickSending (h : Honest s) (phase : s.http.phase = .sending) : Honest (s.tickSending P env) := by
  have http := (tickTransport_aside P env s).http
  have requested := (h.tickTransport P env (.inl phase)).sendOnce P env (by rw [http]; exact phase)
  unfold Stack.tickSending
  dsimp only
  split
  · exact requested.fail 5
  · exact requested

theorem readHeaders (h : Honest s) (phase : s.http.phase = .receiving) : Honest s.readHeaders := by
  have later : ∀ http : Client, http.target = s.http.target → http.useTls = s.http.useTls → http.phase = .receiving →
      Honest { s with http := http } := by
    intro http target tls same
    refine h.withHttp target tls (fun _ => ?_) ?_ (fun _ => h.settled (.inr phase))
    · simp [phase, Client.inProgress]
    · simp [same]
  unfold Stack.readHeaders Client.parseHeaders
  split
  · exact h
  split
  · exact h
  split
  · split
    · exact h.fail 6
    · exact h
  split
  · exact later _ rfl rfl phase
  · exact later _ rfl rfl phase

theorem followRedirect (h : Sober s) : Honest (s.followRedirect P env) := by
  unfold Stack.followRedirect
  dsimp only
  split
  · exact ((h.of_http _).fail 8).resetTcp.stopped (.inr (.inr rfl))
  split
  · exact ((h.of_http _).fail 1).resetTcp.stopped (.inr (.inr rfl))
  apply Honest.begin
  · exact ⟨h.faithful.syns, h.faithful.refusals⟩
  · exact h.answer

theorem tickReceiving (h : Honest s) (phase : s.http.phase = .receiving) : Honest (s.tickReceiving P env).2 := by
  have http := (tickTransport_aside P env s).http
  have read := (h.tickTransport P env (.inr phase)).readHeaders (by rw [http]; exact phase)
  unfold Stack.tickReceiving
  dsimp only
  split
  · exact followRedirect P env read.toSober
  split
  · exact (read.transport P env .close (by simp)).done
  split
  · exact read.done
  · exact read

/-! ## Steps -/

section

variable (h : Honest s)

include h

theorem checkDeadline : Honest (s.checkDeadline env) := by
  unfold Stack.checkDeadline
  split
  · exact h
  dsimp only
  split
  · exact ⟨⟨h.faithful, h.syn, h.answer⟩, h.own, h.remote, h.host, h.plain, h.settled⟩
  split
  · exact (h.toSober.fail 7).resetTcp.stopped (.inr (.inr rfl))
  · exact h

theorem tickHttp (calm : s.connectingTls = true → s.named = false → s.dns.state = .idle)
    (known : s.http.phase = .connecting → s.http.useTls = false → s.tcp.state = .closed →
      ∀ ip ∈ Tls.parseIp s.http.target, s.http.remote = 0 ∨ s.http.remote = ip.toU32) : Honest (s.tickHttp P env) := by
  unfold Stack.tickHttp
  split
  next phase => exact (h.tickResolving P env phase).checkDeadline env
  next phase =>
    split
    next tls => exact h.tickConnectingTls P env phase tls calm
    rename_i plain
    have plain : s.http.useTls = false := by simpa using plain
    exact (h.tickConnecting P env phase plain (known phase plain)).checkDeadline env
  next phase => exact (h.tickSending P env phase).checkDeadline env
  next phase =>
    have received := h.tickReceiving P env phase
    dsimp only
    split
    · exact received
    · exact received.checkDeadline env
  · exact h.checkDeadline env

theorem tick (undisturbed : s.Undisturbed ⟨env, .tick⟩) : Honest (s.tick P env) := by
  obtain ⟨calm, known⟩ := undisturbed
  have polled := (h.tickDns env.tcp.now).transport P env .tick (by simp)
  refine polled.tickHttp P env ?_ ?_
  · intro on named
    have idle := calm on named
    rcases (Dns.Resolver.tick_state env.tcp.now s.dns).2.2 with same | ⟨waiting, -⟩
    · exact same.trans idle
    · cases waiting.symm.trans idle
  · intro phase plain closed
    apply known phase plain
    rcases Tcp.Tcb.tick_state env.tcp s.tcp with same | failed
    · exact same.symm.trans closed
    · cases failed.symm.trans closed

/-- A DNS datagram: an answer is noted with the lookup it was taken for. -/
theorem receiveDns (body : Bytes) : Honest (s.receiveDns body) := by
  rcases Dns.Resolver.receive_state body s.dns with same | ⟨waiting, ours, id, settled⟩
  · have still : s.receiveDns body = s := by
      unfold Stack.receiveDns
      rw [same]
      have unsettled : ¬ (s.dns.state = .waiting ∧ s.dns.state = .answered) := by
        rintro ⟨waiting, answered⟩
        cases waiting.symm.trans answered
      simp [unsettled]
    rw [still]
    exact h
  · have more : s.history.answers ⊆ (s.receiveDns body).history.answers := List.subset_append_left _ _
    refine ⟨⟨⟨?_, h.faithful.refusals⟩, ?_, ?_⟩, ?_, ?_, h.host, h.plain, h.settled⟩
    · intro syn member
      exact (h.faithful.syns syn member).mono (List.Subset.refl _) more
    · intro syn
      exact (h.syn syn).mono (List.Subset.refl _) more
    · intro answered
      refine ⟨⟨s.history.lookups, be16At body 8, (s.dns.receive body).result⟩, ?_, rfl, ours.trans id.symm, rfl⟩
      apply List.mem_append_right
      rw [if_pos ⟨waiting, answered⟩]
      exact List.mem_singleton_self _
    · intro looking _
      obtain ⟨q, asked, hop, lookup, same⟩ := h.own looking (by simp [waiting])
      exact ⟨q, asked, hop, lookup, same.trans id.symm⟩
    · intro phase plain named
      exact (h.remote phase plain named).mono (List.Subset.refl _) more

theorem receive (frame : Bytes) : Honest (s.receive P env frame) := by
  unfold Stack.receive
  split
  · exact h
  split
  · exact h.transport P env _ (by simp)
  split
  · exact h.receiveDns _
  · exact h

/-- Another program starts a lookup while no hop waits for one. -/
theorem lookup (name : Bytes) (free : s.looking = false) : Honest (s.lookup env name) := by
  refine ⟨⟨⟨h.faithful.syns, h.faithful.refusals⟩, h.syn, ?_⟩, ?_, h.remote, h.host, h.plain, h.settled⟩
  · intro answered
    unfold Stack.lookup at answered ⊢
    dsimp only at answered ⊢
    cases accepted : (s.dns.start env.tcp.now name).1 with
    | true =>
      rcases Dns.Resolver.start_state accepted with waiting | failed
      · cases waiting.symm.trans answered
      · cases failed.symm.trans answered
    | false =>
      rw [Dns.Resolver.start_refused accepted] at answered ⊢
      exact h.answer answered
  · intro looking
    rw [show (s.lookup env name).looking = s.looking from rfl, free] at looking
    cases looking

theorem take : Honest { s with dns := s.dns.takeResult.2 } := by
  refine ⟨h.toSober.takeResult, ?_, h.remote, h.host, h.plain, h.settled⟩
  intro looking busy
  unfold Dns.Resolver.takeResult at busy ⊢
  split at busy
  next other =>
    rw [if_pos other]
    exact h.own looking busy
  · exact absurd rfl busy

theorem step (c : Call) (undisturbed : s.Undisturbed c) : Honest (s.step P c) := by
  obtain ⟨env, event⟩ := c
  cases event with
  | start url =>
    apply Honest.begin
    · exact h.faithful
    · exact h.answer
  | frame octets => exact h.receive P env octets
  | tick => exact h.tick P env undisturbed
  | lookup name => exact h.lookup env name undisturbed
  | take => exact h.take
  | server ip => exact ⟨⟨h.faithful, h.syn, h.answer⟩, h.own, h.remote, h.host, h.plain, h.settled⟩

end

theorem boot (port : UInt16) : Honest (.boot port) := by
  apply Sober.stopped _ (.inl rfl)
  refine ⟨⟨?_, ?_⟩, fun syn => Tcp.State.noConfusion syn, fun answered => Dns.State.noConfusion answered⟩
  · intro syn member
    cases member
  · intro r member
    cases member

end Honest

/-- In every run that is undisturbed, connections go where the URLs say. -/
theorem connections_faithful (port : UInt16) (calls : List Call)
    (undisturbed : Along (step P) Undisturbed (.boot port) calls) :
    (run (step P) (.boot port) calls).history.Faithful :=
  (undisturbed.invariant Honest (fun _ c h ok => h.step P c ok) (.boot port)).faithful

/-- A call with every frame going out, at a time. -/
def callAt (now : UInt64) (event : Event) : Call :=
  ⟨⟨⟨now, 0, 49152, ⟨10, 0, 2, 15⟩, fun _ => true⟩, fun _ _ => 0, fun _ => true⟩, event⟩

/-- An https fetch from an address, and then one from a name that nobody answers for. -/
def quietFetches : List Call :=
  [callAt 0 (.server ⟨10, 0, 2, 3⟩), callAt 0 (.start (ascii "https://10.0.2.2/")), callAt 100 .tick,
    callAt 200 (.start (ascii "http://a/")), callAt 300 .tick, callAt 400 .tick, callAt 600 .tick, callAt 800 .tick]

theorem quietFetches_faithful : Along (step samplePrimitives) Undisturbed (.boot 0) quietFetches ∧
      (run (step samplePrimitives) (.boot 0) quietFetches).history.syns.length = 2 ∧
      (run (step samplePrimitives) (.boot 0) quietFetches).history.refusals.length = 1 ∧
      (run (step samplePrimitives) (.boot 0) quietFetches).history.Faithful :=
  have undisturbed : Along (step samplePrimitives) Undisturbed (.boot 0) quietFetches := by
    decide +kernel
  ⟨undisturbed, by decide +kernel, by decide +kernel,
    connections_faithful samplePrimitives 0 quietFetches undisturbed⟩

/-- The other way round, the https fetch finds the lookup that has failed, and fails with it. -/
theorem earlier_lookup_blamed : ¬ ∀ (P : Primitives) (port : UInt16) (calls : List Call),
    (run (step P) (.boot port) calls).history.Faithful := by
  intro faithful
  have blamed := (faithful samplePrimitives 0
    [callAt 0 (.server ⟨10, 0, 2, 3⟩), callAt 0 (.start (ascii "http://a/")), callAt 200 .tick, callAt 400 .tick,
      callAt 600 .tick, callAt 700 (.start (ascii "https://10.0.2.2/")), callAt 800 .tick]).refusals
  revert blamed
  decide +kernel

end BarryOS.Net.Http
