import BarryOS.Net.Http

/-!
# What a call can do to a fetch

A fetch is begun (`begin_began`), and every arm of `tick` lets its hop go on (`Goes`), after which `tick`
looks at the deadline, follows a redirect or returns (`tickHttp_cases`). What the layers below do
passes it by (`Aside`).
-/

namespace BarryOS.Net.Http

open Lib Stack List

variable (P : Crypto.Primitives) (env : Env)

/-! ## The layers below -/

/-- Nothing happens to the fetch itself. -/
structure Aside (s t : Stack) : Prop where
  http : t.http = s.http
  hop : t.hop = s.hop
  requests : t.history.requests = s.history.requests
  redirects : t.history.redirects = s.history.redirects

theorem ask_aside (name : Bytes) (s : Stack) : Aside s (s.ask env name).2 := by
  unfold ask
  dsimp only
  split <;> exact ⟨rfl, rfl, rfl, rfl⟩

theorem askTls_aside (host : Bytes) (s : Stack) : Aside s (s.askTls env host) := by
  unfold askTls
  split
  · exact ask_aside env host s
  · exact ⟨rfl, rfl, rfl, rfl⟩

theorem tickTls_aside (s : Stack) : Aside s (s.tickTls P env) := by
  unfold tickTls
  split
  · exact ⟨rfl, rfl, rfl, rfl⟩
  · split <;> exact ⟨rfl, rfl, rfl, rfl⟩

theorem tickTransport_aside (s : Stack) : Aside s (s.tickTransport P env) := by
  unfold tickTransport
  split
  · exact tickTls_aside P env s
  · exact ⟨rfl, rfl, rfl, rfl⟩

theorem receive_aside (frame : Bytes) (s : Stack) : Aside s (s.receive P env frame) := by
  unfold receive
  split
  · exact ⟨rfl, rfl, rfl, rfl⟩
  split
  · exact ⟨rfl, rfl, rfl, rfl⟩
  · split <;> exact ⟨rfl, rfl, rfl, rfl⟩

/-! ## Beginning -/

/-- The client in another phase, and whatever the layers below have done. -/
theorem beginTls_began (t : Target) (s : Stack) : ∃ phase error,
    Aside { s with http := { s.http with phase := phase, error := error } } (s.beginTls P env t).2 ∧
      (phase = .connecting ∨ phase = .failed) := by
  obtain ⟨http, hop, requests, redirects⟩ := askTls_aside env t.host
    ((s.withPhase .connecting).call P ⟨(s.withPhase .connecting).tlsEnv env t.host, .start t.host t.port⟩)
  unfold beginTls
  dsimp only
  split
  · exact ⟨.connecting, s.http.error, ⟨http, hop, requests, redirects⟩, .inl rfl⟩
  · exact ⟨.failed, 4, ⟨(congrArg (Client.fail 4) http).trans rfl, hop, requests, redirects⟩, .inr rfl⟩

theorem beginPlain_began (t : Target) (s : Stack) : ∃ phase error,
    Aside { s with http := { s.http with phase := phase, error := error } } (s.beginPlain P env t).2 ∧
      (phase = .connecting ∨ phase = .failed ∨ phase = .resolving) := by
  obtain ⟨http, hop, requests, redirects⟩ := ask_aside env t.host (s.withPhase .resolving)
  unfold beginPlain
  split
  · exact ⟨.connecting, s.http.error, ⟨rfl, rfl, rfl, rfl⟩, .inl rfl⟩
  split
  · exact ⟨.failed, 2, ⟨rfl, rfl, rfl, rfl⟩, .inr (.inl rfl)⟩
  dsimp only
  split
  · exact ⟨.resolving, s.http.error, ⟨http, hop, requests, redirects⟩, .inr (.inr rfl)⟩
  · exact ⟨.failed, 3, ⟨(congrArg (Client.fail 3) http).trans rfl, hop, requests, redirects⟩, .inr (.inl rfl)⟩

/-- The URL is refused, or the client is aimed at its target. -/
theorem begin_began (url : Bytes) (s : Stack) : ∃ c phase error,
    Aside { s.forget env url with http := { c with phase := phase, error := error } } (s.begin P env url).2 ∧
      (c = (s.forget env url).http ∧ phase = .failed ∧ (s.begin P env url).1 = false ∨
        ∃ t, target url = some t ∧ c = ((s.forget env url).aim t).http ∧
          (phase = .connecting ∨ phase = .failed ∨ phase = .resolving ∧ c.useTls = false)) := by
  unfold Stack.begin
  dsimp only
  split
  · exact ⟨_, .failed, 1, ⟨rfl, rfl, rfl, rfl⟩, .inl ⟨rfl, rfl, rfl⟩⟩
  rename_i t found
  split
  · obtain ⟨phase, error, aside, reached⟩ := beginTls_began P env t ((s.forget env url).aim t)
    refine ⟨_, phase, error, aside, .inr ⟨t, found, rfl, ?_⟩⟩
    exact reached.imp_right .inl
  next plain =>
    obtain ⟨phase, error, aside, reached⟩ := beginPlain_began P env t ((s.forget env url).aim t)
    refine ⟨_, phase, error, aside, .inr ⟨t, found, rfl, ?_⟩⟩
    exact reached.imp_right (Or.imp_right fun resolving => ⟨resolving, Bool.not_eq_true _ ▸ plain⟩)

/-! ## Going on -/

theorem parseHeaders_kept (all : Bytes) (c : Client) :
    ((c.parseHeaders all).req, (c.parseHeaders all).requestSent, (c.parseHeaders all).useTls) =
        (c.req, c.requestSent, c.useTls) ∧
      ((c.parseHeaders all).phase = c.phase ∨ (c.parseHeaders all).phase = .failed) := by
  unfold Client.parseHeaders
  split
  · exact ⟨rfl, .inl rfl⟩
  split
  · split
    · exact ⟨rfl, .inr rfl⟩
    · exact ⟨rfl, .inl rfl⟩
  split
  · exact ⟨rfl, .inl rfl⟩
  · exact ⟨rfl, .inl rfl⟩

/-- The hop goes on: a later phase of the same hop. -/
structure Stays (s t : Stack) : Prop where
  deadline : t.http.deadlineTick = s.http.deadlineTick
  account : (t.http.useTls, t.http.hops, t.hop) = (s.http.useTls, s.http.hops, s.hop)
  resolving : t.http.phase = .resolving → s.http.phase = .resolving
  connecting : t.http.phase = .connecting → s.http.phase = .connecting ∨ s.http.phase = .resolving
  busy : s.http.phase ≠ .idle → t.http.phase ≠ .idle

/-- And perhaps it has made its request. -/
structure Goes (s t : Stack) : Prop extends Stays s t where
  req : t.http.req = s.http.req
  redirects : t.history.redirects = s.history.redirects
  requests : ∃ new : List Request, (∀ r ∈ new, r.hop = s.hop ∧ r.call = s.handing) ∧
    t.history.requests = s.history.requests ++ new

variable {s t u : Stack}

theorem Stays.same (h : Stays s t) : t.http.useTls = s.http.useTls ∧ t.http.hops = s.http.hops ∧ t.hop = s.hop := by
  simpa using h.account

namespace Goes

theorem of_stays (stays : Stays s t) (req : t.http.req = s.http.req)
    (redirects : t.history.redirects = s.history.redirects) (requests : t.history.requests = s.history.requests) :
    Goes s t :=
  ⟨stays, req, redirects, [], nofun, requests.trans (append_nil _).symm⟩

theorem of_aside (h : Aside s t) : Goes s t := by
  obtain ⟨http, hop, requests, redirects⟩ := h
  refine of_stays ⟨?_, ?_, ?_, ?_, ?_⟩ (by rw [http]) redirects requests
  · rw [http]
  · rw [http, hop]
  · rw [http]
    exact id
  · rw [http]
    exact .inl
  · rw [http]
    exact id

theorem refl (s : Stack) : Goes s s := of_aside ⟨rfl, rfl, rfl, rfl⟩

theorem trans (first : Goes s t) (second : Goes t u) : Goes s u := by
  obtain ⟨new, ours, requests⟩ := first.requests
  obtain ⟨more, theirs, requests'⟩ := second.requests
  obtain ⟨tls, -, hop⟩ := first.same
  refine ⟨⟨second.deadline.trans first.deadline, second.account.trans first.account,
    fun h => first.resolving (second.resolving h), ?_, fun h => second.busy (first.busy h)⟩,
    second.req.trans first.req, second.redirects.trans first.redirects, new ++ more, ?_, ?_⟩
  · intro h
    rcases second.connecting h with connecting | resolving
    · exact first.connecting connecting
    · exact .inr (first.resolving resolving)
  · have handing : t.handing = s.handing := by
      unfold handing
      rw [tls, first.req]
    rw [hop, handing] at theirs
    exact forall_mem_append.mpr ⟨ours, theirs⟩
  · rw [requests', requests, append_assoc]

theorem fail (code : UInt8) (s : Stack) : Goes s (s.fail code) :=
  of_stays ⟨rfl, rfl, nofun, nofun, fun _ => nofun⟩ rfl rfl rfl

theorem withPhase {phase : Phase} (later : phase = .sending ∨ phase = .done) (s : Stack) :
    Goes s (s.withPhase phase) := by
  rcases later with rfl | rfl
  · exact of_stays ⟨rfl, rfl, nofun, nofun, fun _ => nofun⟩ rfl rfl rfl
  · exact of_stays ⟨rfl, rfl, nofun, nofun, fun _ => nofun⟩ rfl rfl rfl

theorem transport (op : Tcp.Op) (s : Stack) : Goes s (s.transport P env op) := of_aside ⟨rfl, rfl, rfl, rfl⟩

theorem tickResolving (phase : s.http.phase = .resolving) : Goes s (s.tickResolving P env) := by
  unfold Stack.tickResolving
  dsimp only
  split
  · exact of_stays ⟨rfl, rfl, nofun, fun _ => .inr phase, fun _ => nofun⟩ rfl rfl rfl
  · exact of_stays ⟨rfl, rfl, nofun, nofun, fun _ => nofun⟩ rfl rfl rfl
  · exact of_aside ⟨rfl, rfl, rfl, rfl⟩

theorem tickConnectingTls (s : Stack) : Goes s (s.tickConnectingTls P env) := by
  unfold Stack.tickConnectingTls
  dsimp only
  have ticked := of_aside (tickTls_aside P env s)
  split
  · exact ticked.trans (withPhase (.inl rfl) _)
  · exact ticked.trans (fail 4 _)
  · exact ticked.trans (fail 4 _)
  · exact ticked

theorem tickConnecting (s : Stack) : Goes s (s.tickConnecting P env) := by
  unfold Stack.tickConnecting
  dsimp only
  have ticked := transport P env .tick s
  split
  · exact ticked.trans (withPhase (.inl rfl) _)
  · exact ticked.trans (fail 4 _)
  · split
    · exact ticked.trans (transport P env _ _)
    · exact ticked
  · exact ticked

theorem sendOnce (s : Stack) : Goes s (s.sendOnce P env) := by
  unfold Stack.sendOnce
  split
  · exact refl s
  unfold Stack.sendRequest
  dsimp only
  split
  · exact ⟨⟨rfl, rfl, nofun, nofun, fun _ => nofun⟩, rfl, rfl, [_], forall_mem_singleton.mpr ⟨rfl, rfl⟩, rfl⟩
  · exact ⟨⟨rfl, rfl, id, .inl, id⟩, rfl, rfl, [_], forall_mem_singleton.mpr ⟨rfl, rfl⟩, rfl⟩

theorem tickSending (s : Stack) : Goes s (s.tickSending P env) := by
  have requested := (of_aside (tickTransport_aside P env s)).trans (sendOnce P env _)
  unfold Stack.tickSending
  dsimp only
  split
  · exact requested.trans (fail 5 _)
  · exact requested

theorem readHeaders (s : Stack) : Goes s s.readHeaders := by
  unfold Stack.readHeaders Client.parseHeaders
  split
  · exact refl s
  split
  · exact refl s
  split
  · split
    · exact fail 6 s
    · exact refl s
  split
  · exact of_stays ⟨rfl, rfl, id, .inl, id⟩ rfl rfl rfl
  · exact of_stays ⟨rfl, rfl, id, .inl, id⟩ rfl rfl rfl

end Goes

/-- The arm for `Receiving`: the hop goes on, or there was a redirect and `tick` is over. -/
theorem tickReceiving_cases (s : Stack) : ∃ t, Goes s t ∧
    ((s.tickReceiving P env).2 = t ∧ ((s.tickReceiving P env).1 = true → t.http.phase = .done) ∨
      s.tickReceiving P env = (true, t.followRedirect P env)) := by
  have read : Goes s (s.tickTransport P env).readHeaders :=
    (Goes.of_aside (tickTransport_aside P env s)).trans (Goes.readHeaders _)
  unfold tickReceiving
  dsimp only
  split
  · exact ⟨_, read, .inr rfl⟩
  split
  · exact ⟨_, (read.trans (Goes.transport P env .close _)).trans (Goes.withPhase (.inr rfl) _),
      .inl ⟨rfl, fun _ => rfl⟩⟩
  split
  · exact ⟨_, read.trans (Goes.withPhase (.inr rfl) _), .inl ⟨rfl, nofun⟩⟩
  · exact ⟨_, read, .inl ⟨rfl, nofun⟩⟩

theorem tickHttp_cases (s : Stack) : ∃ t, Goes s t ∧ (s.http.inProgress = false → t = s) ∧
    ((s.http.phase = .connecting → s.http.useTls = false) ∧ s.tickHttp P env = t.checkDeadline env ∨
      s.http.phase = .receiving ∧ s.tickHttp P env = t.followRedirect P env ∨
      (t.http.phase = .done ∨ s.http.phase = .connecting ∧ s.http.useTls = true) ∧ s.tickHttp P env = t) := by
  have active : ∀ {u : Stack}, s.http.phase = .resolving ∨ s.http.phase = .connecting ∨ s.http.phase = .sending ∨
      s.http.phase = .receiving → s.http.inProgress = false → u = s := by
    rintro u (phase | phase | phase | phase) ended <;> simp [Client.inProgress, phase] at ended
  unfold Stack.tickHttp
  split
  next phase =>
    exact ⟨_, Goes.tickResolving P env phase, active (.inl phase),
      .inl ⟨fun other => (nomatch phase.symm.trans other), rfl⟩⟩
  next phase =>
    split
    next tls =>
      exact ⟨_, Goes.tickConnectingTls P env s, active (.inr (.inl phase)), .inr (.inr ⟨.inr ⟨phase, tls⟩, rfl⟩)⟩
    next plain =>
      exact ⟨_, Goes.tickConnecting P env s, active (.inr (.inl phase)), .inl ⟨fun _ => by simpa using plain, rfl⟩⟩
  next phase =>
    exact ⟨_, Goes.tickSending P env s, active (.inr (.inr (.inl phase))),
      .inl ⟨fun other => (nomatch phase.symm.trans other), rfl⟩⟩
  next phase =>
    obtain ⟨t, goes, ⟨same, ended⟩ | followed⟩ := tickReceiving_cases P env s
    · refine ⟨t, goes, active (.inr (.inr (.inr phase))), ?_⟩
      dsimp only
      rw [same]
      split
      next returned => exact .inr (.inr ⟨.inl (ended returned), rfl⟩)
      · exact .inl ⟨fun other => (nomatch phase.symm.trans other), rfl⟩
    · refine ⟨t, goes, active (.inr (.inr (.inr phase))), .inr (.inl ⟨phase, ?_⟩)⟩
      rw [followed]
      rfl
  next other _ _ => exact ⟨s, Goes.refl s, fun _ => rfl,
    .inl ⟨fun connecting => absurd connecting (by assumption), rfl⟩⟩

end BarryOS.Net.Http
