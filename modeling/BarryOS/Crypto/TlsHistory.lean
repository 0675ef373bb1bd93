import BarryOS.Crypto.TlsMoves
import BarryOS.Lib.Chronicle

/-!
# Where the values of a connection come from

`Origins` relates the state of a connection that has not failed to its log: the stored chain
is that of a Certificate the log holds, the secrets are those an accepted message left. A
footprint lemma says for each value which message can change it; `history` carries the
relation through every run, for the present state and for the state before every entry.
-/

namespace BarryOS.Crypto

open Lib List

variable (P : Primitives) (env : Env)

/-- The log holds a message of which `Q` holds. -/
def Heard (log : List Entry) (Q : Tls → Bytes → Bool → Tls → Prop) : Prop :=
  ∃ b m ok a, Entry.message b m ok a ∈ log ∧ Q b m ok a

variable {ok : Bool}

section Heard

variable {log : List Entry} {Q R : Tls → Bytes → Bool → Tls → Prop}

theorem Heard.mono (h : Heard log Q) (imp : ∀ b m ok a, Q b m ok a → R b m ok a) : Heard log R := by
  obtain ⟨b, m, ok, a, member, holds⟩ := h
  exact ⟨b, m, ok, a, member, imp b m ok a holds⟩

theorem Heard.later (e : Entry) (h : Heard log Q) : Heard (log ++ [e]) Q := by
  obtain ⟨b, m, ok, a, member, holds⟩ := h
  exact ⟨b, m, ok, a, mem_append_left _ member, holds⟩

theorem Heard.now {b a : Tls} {m : Bytes} (holds : Q b m ok a) : Heard (log ++ [.message b m ok a]) Q :=
  ⟨b, m, ok, a, mem_append_right _ (mem_singleton_self _), holds⟩

theorem Heard.snoc {b a : Tls} {m : Bytes} (h : Heard (log ++ [.message b m ok a]) Q) : Heard log Q ∨ Q b m ok a := by
  obtain ⟨b', m', ok', a', member, holds⟩ := h
  rcases mem_append.mp member with earlier | last
  · exact .inl ⟨b', m', ok', a', earlier, holds⟩
  cases mem_singleton.mp last
  exact .inr holds

end Heard

/-- A message of that type, on the TLS 1.3 side. -/
def Entry.is13 (kind : UInt8) : Entry → Bool
  | .message b m _ _ => b.version ≠ 12 && octet m 0 = kind
  | .data _ _ => false

/-- A message of that type, on the TLS 1.2 side. -/
def Entry.is12 (kind : UInt8) : Entry → Bool
  | .message b m _ _ => b.version = 12 && octet m 0 = kind
  | .data _ _ => false

theorem heard13_iff (kind : UInt8) (log : List Entry) : log.any (Entry.is13 kind) = true ↔
    Heard log fun b m _ _ => b.version ≠ 12 ∧ octet m 0 = kind := by
  rw [any_eq_true]
  constructor
  · rintro ⟨_ | _, member, is⟩
    · exact ⟨_, _, _, _, member, by simpa [Entry.is13] using is⟩
    · cases is
  · rintro ⟨b, m, ok, a, member, is⟩
    exact ⟨_, member, by simpa [Entry.is13] using is⟩

theorem heard12_iff (kind : UInt8) (log : List Entry) : log.any (Entry.is12 kind) = true ↔
    Heard log fun b m _ _ => b.version = 12 ∧ octet m 0 = kind := by
  rw [any_eq_true]
  constructor
  · rintro ⟨_ | _, member, is⟩
    · exact ⟨_, _, _, _, member, by simpa [Entry.is12] using is⟩
    · cases is
  · rintro ⟨b, m, ok, a, member, is⟩
    exact ⟨_, member, by simpa [Entry.is12] using is⟩

/-- The secrets a TLS 1.2 key exchange ends in. -/
def Handshake.SameKeys (g h : Handshake) : Prop :=
  g.master = h.master ∧ g.clientKey = h.clientKey ∧ g.serverKey = h.serverKey ∧
    g.clientIv = h.clientIv ∧ g.serverIv = h.serverIv

structure Origins (log : List Entry) (s : Tls) : Prop where
  host : ∀ b m ok a, Entry.message b m ok a ∈ log → b.host = s.host
  version : ∀ b m ok a, Entry.message b m ok a ∈ log → b.version = 0 ∨ b.version = s.version
  /-- Before the ServerHello there is nothing to finish. -/
  undecided : s.version = 0 → s.haveHs = false ∧ s.phase ≠ .established
  /-- The one refusal a connection survives. -/
  answered : ∀ b m a, Entry.message b m false a ∈ log → b.version = 12 ∧ octet m 0 = hsCertificate
  chain : s.chain = [] ∨ Heard log fun b m _ _ =>
    octet m 0 = hsCertificate ∧ certificateList (m.drop 4) (b.version ≠ 12) = some s.chain
  exchange : s.hs12.preMaster = [] ∨ Heard log fun b m ok a => ok = true ∧ b.version = 12 ∧
    octet m 0 = hsServerKeyExchange ∧ a.hs12.preMaster = s.hs12.preMaster
  derived : Heard log (fun b m _ _ => b.version = 12 ∧ octet m 0 = hsServerHelloDone) →
    Heard log fun b m ok a => ok = true ∧ b.version = 12 ∧ octet m 0 = hsServerHelloDone ∧ a.hs12.SameKeys s.hs12
  flight : s.step12 = 1 ∨ s.step12 = 2 ∨ s.clientCipher = true →
    Heard log fun b m _ _ => b.version = 12 ∧ octet m 0 = hsServerHelloDone
  hello : s.haveHs = true → Heard log fun b m ok a => ok = true ∧ b.version ≠ 12 ∧
    octet m 0 = hsServerHello ∧ a.hsSecret = s.hsSecret ∧ a.sHsSecret = s.sHsSecret
  finished : s.phase = .established → Heard log fun b m ok a => ok = true ∧ b.version = s.version ∧
    octet m 0 = hsFinished ∧ (s.version ≠ 12 → a.clientAp = s.clientAp ∧ a.serverAp = s.serverAp)

/-! ## Footprints -/

/-- Which message can have changed what, in a connection that goes on. -/
structure Footprint (msg : Bytes) (s : Tls) (ok : Bool) (t : Tls) : Prop where
  host : t.host = s.host
  version : t.version = s.version
  cipher : t.clientCipher = s.clientCipher
  answered : ok = true ∨ s.version = 12 ∧ octet msg 0 = hsCertificate
  chain : t.chain = s.chain ∨ octet msg 0 = hsCertificate ∧ certificateList (msg.drop 4) (s.version ≠ 12) = some t.chain
  exchange : t.hs12.preMaster = s.hs12.preMaster ∨ ok = true ∧ s.version = 12 ∧ octet msg 0 = hsServerKeyExchange
  keys : t.hs12.SameKeys s.hs12 ∧ ¬ (s.version = 12 ∧ octet msg 0 = hsServerHelloDone) ∨
    ok = true ∧ s.version = 12 ∧ octet msg 0 = hsServerHelloDone
  step : t.step12 = s.step12 ∨ t.step12 = 3 ∨ s.version = 12 ∧ octet msg 0 = hsServerHelloDone
  hello : t.haveHs = s.haveHs ∧ t.hsSecret = s.hsSecret ∧ t.sHsSecret = s.sHsSecret ∨
    ok = true ∧ s.version ≠ 12 ∧ octet msg 0 = hsServerHello
  finished : t.phase = s.phase ∧ t.clientAp = s.clientAp ∧ t.serverAp = s.serverAp ∨
    ok = true ∧ octet msg 0 = hsFinished ∧ (s.version = 12 ∨ s.haveHs = true)

theorem Handshake.SameKeys.refl (h : Handshake) : h.SameKeys h := ⟨rfl, rfl, rfl, rfl, rfl⟩

variable {s : Tls} {msg : Bytes}

/-- A message that only goes into the transcript. -/
theorem Footprint.heard (other : ¬ (s.version = 12 ∧ octet msg 0 = hsServerHelloDone))
    (answered : ok = true ∨ s.version = 12 ∧ octet msg 0 = hsCertificate) :
    Footprint msg s ok (s.transcriptUpdate msg) :=
  ⟨rfl, rfl, rfl, answered, .inl rfl, .inl rfl, .inl ⟨.refl _, other⟩, .inl rfl, .inl ⟨rfl, rfl, rfl⟩,
    .inl ⟨rfl, rfl, rfl⟩⟩

theorem deriveKeys_preMaster (h : Handshake) : (h.deriveKeys P).2.preMaster = h.preMaster := by
  unfold Handshake.deriveKeys
  split <;> rfl

variable {t : Tls}

theorem Tls.Effect.footprint (h : Tls.Effect P env msg s ok t) (alive : t.phase ≠ .failed) : Footprint msg s ok t := by
  have tls13 : s.version ≠ 12 → ¬ (s.version = 12 ∧ octet msg 0 = hsServerHelloDone) := fun v is => v is.1
  have other : ∀ {k : UInt8}, octet msg 0 = k → k ≠ hsServerHelloDone →
      ¬ (s.version = 12 ∧ octet msg 0 = hsServerHelloDone) :=
    fun kind different is => different (kind.symm.trans is.2)
  cases h with
  | refused t refused =>
    obtain ⟨⟨_, _, _, _, _, rfl⟩, -, -⟩ := refused
    exact absurd rfl alive
  | hello v kind =>
    exact { Footprint.heard (tls13 v) (.inl rfl) with hello := .inr ⟨rfl, v, kind⟩ }
  | certificate v kind chain list =>
    have stores : certificateList (msg.drop 4) (s.version ≠ 12) = some chain := by simpa [v] using list
    exact { Footprint.heard (tls13 v) (.inl rfl) with chain := .inr ⟨kind, stores⟩ }
  | verify v kind signed => exact .heard (tls13 v) (.inl rfl)
  | finished v kind keyed mac =>
    obtain ⟨_, _, _, _, -, sent | unsent⟩ := sendFinished_cases P env (finishing P msg s)
    · rw [sent]
      exact { Footprint.heard (tls13 v) (.inl rfl) with finished := .inr ⟨rfl, kind, .inr keyed⟩ }
    · rw [unsent] at alive
      exact absurd rfl alive
  | other v plain => exact .heard (tls13 v) (.inl rfl)
  | hello12 v kind h read =>
    obtain ⟨random, suite, frame⟩ := serverHello_frame (msg.drop 4) { s.hs12 with clientRandom := s.clientRandom }
    rw [read] at frame
    subst frame
    exact { Footprint.heard (other kind (by decide)) (.inl rfl) with }
  | certificate12 v kind chain list =>
    have stores : certificateList (msg.drop 4) (s.version ≠ 12) = some chain := by simpa [v] using list
    exact { Footprint.heard (other kind (by decide)) (.inr ⟨v, kind⟩) with
      chain := .inr ⟨kind, stores⟩ }
  | keyExchange12 v kind leaf parsed h n signed =>
    obtain ⟨group, priv, pub, pre, frame⟩ := serverKeyExchange_frame P (msg.drop 4) leaf.keyAlg leaf.curve
      leaf.key (s.randomBytes env) s.hs12
    rw [signed] at frame
    subst frame
    exact { Footprint.heard (other kind (by decide)) (.inl rfl) with exchange := .inr ⟨rfl, v, kind⟩ }
  | request12 v kind => exact { Footprint.heard (other kind (by decide)) (.inl rfl) with }
  | done12 v kind h derived =>
    have same := deriveKeys_preMaster P s.hs12
    rw [derived] at same
    exact ⟨rfl, rfl, rfl, .inl rfl, .inl rfl, .inl same, .inr ⟨rfl, v, kind⟩, .inr (.inr ⟨v, kind⟩),
      .inl ⟨rfl, rfl, rfl⟩, .inl ⟨rfl, rfl, rfl⟩⟩
  | finished12 v kind length mac =>
    exact { Footprint.heard (other kind (by decide)) (.inl rfl) with
      step := .inr (.inl rfl), finished := .inr ⟨rfl, kind, .inl v⟩ }
  | other12 v plain => exact .heard (fun is => plain.2.2.2.2.1 is.2) (.inl rfl)

/-! ## The relation is kept -/

theorem Handshake.SameKeys.trans {g h k : Handshake} (first : g.SameKeys h) (second : h.SameKeys k) : g.SameKeys k := by
  obtain ⟨a, b, c, d, e⟩ := first
  obtain ⟨a', b', c', d', e'⟩ := second
  exact ⟨a.trans a', b.trans b', c.trans c', d.trans d', e.trans e'⟩

theorem Handshake.SameKeys.symm {g h : Handshake} (same : g.SameKeys h) : h.SameKeys g := by
  obtain ⟨a, b, c, d, e⟩ := same
  exact ⟨a.symm, b.symm, c.symm, d.symm, e.symm⟩

variable {log : List Entry}

theorem Origins.message (h : Origins log s)
    (f : Footprint msg s ok t) (decided : octet msg 0 = hsServerHello → s.version ≠ 0) :
    Origins (log ++ [.message s msg ok t]) t := by
  refine ⟨fun b m ok' a member => ?_, fun b m ok' a member => ?_, fun zero => ?_, fun b m a member => ?_,
    ?_, ?_, ?_, ?_, ?_, ?_⟩
  · rw [f.host]
    rcases mem_append.mp member with earlier | last
    · exact h.host b m ok' a earlier
    cases mem_singleton.mp last
    rfl
  · rw [f.version]
    rcases mem_append.mp member with earlier | last
    · exact h.version b m ok' a earlier
    cases mem_singleton.mp last
    exact .inr rfl
  · rw [f.version] at zero
    obtain ⟨unkeyed, open'⟩ := h.undecided zero
    constructor
    · rcases f.hello with ⟨same, -⟩ | ⟨-, -, kind⟩
      · exact same.trans unkeyed
      · exact absurd zero (decided kind)
    · rcases f.finished with ⟨same, -⟩ | ⟨-, -, v | keyed⟩
      · exact same.trans_ne open'
      · exact absurd (zero.symm.trans v) (by decide)
      · exact absurd (unkeyed.symm.trans keyed) nofun
  · rcases mem_append.mp member with earlier | last
    · exact h.answered b m a earlier
    cases mem_singleton.mp last
    exact f.answered.resolve_left nofun
  · rcases f.chain with same | stored
    · rw [same]
      exact h.chain.imp id (.later _)
    · exact .inr (.now stored)
  · rcases f.exchange with same | ⟨accepted, v, kind⟩
    · rw [same]
      exact h.exchange.imp id (.later _)
    · exact .inr (.now ⟨accepted, v, kind, rfl⟩)
  · intro done
    rcases f.keys with ⟨same, other⟩ | ⟨accepted, v, kind⟩
    · refine .later _ ((h.derived (done.snoc.resolve_right other)).mono ?_)
      exact fun b m ok a ⟨accepted, v, kind, keys⟩ => ⟨accepted, v, kind, keys.trans same.symm⟩
    · exact .now ⟨accepted, v, kind, .refl _⟩
  · intro flying
    rw [f.cipher] at flying
    rcases f.step with same | three | done
    · rw [same] at flying
      exact .later _ (h.flight flying)
    · rw [three] at flying
      rcases flying with one | two | on
      · exact absurd one (by decide)
      · exact absurd two (by decide)
      · exact .later _ (h.flight (.inr (.inr on)))
    · exact .now done
  · intro keyed
    rcases f.hello with ⟨have', secret, server⟩ | ⟨accepted, v, kind⟩
    · rw [have'] at keyed
      rw [secret, server]
      exact .later _ (h.hello keyed)
    · exact .now ⟨accepted, v, kind, rfl, rfl⟩
  · intro established
    rw [f.version]
    rcases f.finished with ⟨phase, client, server⟩ | ⟨accepted, kind, -⟩
    · rw [phase] at established
      rw [client, server]
      exact .later _ (h.finished established)
    · exact .now ⟨accepted, rfl, kind, fun _ => ⟨rfl, rfl⟩⟩

theorem Origins.data (b : Tls) (o : Tls.Opened) (h : Origins log s) : Origins (log ++ [.data b o]) s := by
  have message : ∀ {b' a m ok}, Entry.message b' m ok a ∈ log ++ [.data b o] → Entry.message b' m ok a ∈ log := by
    intro b' a m ok member
    simpa using member
  have heard : ∀ {Q}, Heard (log ++ [.data b o]) Q → Heard log Q :=
    fun ⟨b', m, ok, a, member, holds⟩ => ⟨b', m, ok, a, message member, holds⟩
  exact ⟨fun b m ok a member => h.host b m ok a (message member),
    fun b m ok a member => h.version b m ok a (message member), h.undecided,
    fun b m a member => h.answered b m a (message member),
    h.chain.imp id (.later _), h.exchange.imp id (.later _), fun done => .later _ (h.derived (heard done)),
    fun flying => .later _ (h.flight flying), fun keyed => .later _ (h.hello keyed),
    fun established => .later _ (h.finished established)⟩

theorem Origins.decided (msg : Bytes) (h : Origins log s) : Origins log (s.decideVersion msg) := by
  unfold Tls.decideVersion
  split
  next first =>
    simp only [Bool.and_eq_true, decide_eq_true_eq] at first
    obtain ⟨unkeyed, open'⟩ := h.undecided first.2
    exact { h with
      version := fun b m ok a member => .inl ((h.version b m ok a member).elim id (·.trans first.2))
      undecided := fun _ => ⟨unkeyed, open'⟩
      finished := fun established => absurd established open' }
  · exact h

theorem decideVersion_decided (msg : Bytes) (s : Tls) (kind : octet msg 0 = hsServerHello) :
    (s.decideVersion msg).version ≠ 0 := by
  unfold Tls.decideVersion
  split
  · dsimp only
    split <;> decide
  next decided => simpa [kind] using decided

/-! ## Every run -/

/-- What holds of an entry in view of those before it. -/
def Genuine (earlier : List Entry) : Entry → Prop
  | .message b m ok a => Origins earlier b ∧ b.phase ≠ .failed ∧ ∃ env, b.handleMessage P env m = (ok, a)
  | .data b o => Origins earlier b ∧ o.kind = ctApplicationData ∧
      ∃ hdr record s, b.openRecord P hdr record = (some o, s)

theorem Tls.effect_of_handled {env : Env}
    (handled : s.handleMessage P env msg = (ok, t)) : Tls.Effect P env msg s ok t := by
  have effect := Tls.handleMessage_effect P env msg s
  rw [handled] at effect
  exact effect

structure History (σ : Session) : Prop where
  entries : Chronicle (Genuine P) σ.log
  present : σ.tls.phase ≠ .failed → Origins σ.log σ.tls

theorem Origins.start (chain : s.chain = []) (exchange : s.hs12.preMaster = [])
    (step : s.step12 = 0 ∧ s.clientCipher = false) (keyed : s.haveHs = false) (phase : s.phase ≠ .established) :
    Origins [] s := by
  refine ⟨by simp, by simp, fun _ => ⟨keyed, phase⟩, by simp, .inl chain, .inl exchange, ?_, ?_, ?_, ?_⟩
  · rintro ⟨_, _, _, _, member, -⟩
    cases member
  · rw [step.1, step.2]
    simp
  · rw [keyed]
    simp
  · exact fun established => absurd established phase

theorem Origins.rephase (h : Origins log s) (phase : Phase)
    (ended : phase = s.phase ∨ phase ≠ .established) : Origins log { s with phase := phase } := by
  have earlier : phase = .established → s.phase = .established :=
    fun established => (ended.resolve_right fun not => not established).symm.trans established
  exact { h with
    undecided := fun zero => ⟨(h.undecided zero).1, fun established => (h.undecided zero).2 (earlier established)⟩
    finished := fun established => h.finished (earlier established) }

theorem Tls.Quiet.origins (quiet : Tls.Quiet s t) (alive : t.phase ≠ .failed) (h : Origins log s) : Origins log t := by
  obtain ⟨⟨phase, _, _, _, _, rfl⟩, ended, -⟩ := quiet
  have kept := h.rephase phase
    (ended.imp id (Or.rec (fun failed => absurd failed alive) fun closed => closed.1.trans_ne nofun))
  exact { kept with }

theorem sendClientHello_frame (s : Tls) (handshaking : s.phase = .handshaking) :
    ∃ phase error transcript priv pub random draws seq calls tcp, s.sendClientHello P env = { s with
      phase := phase, error := error, transcript := transcript, priv := priv, pub := pub,
      clientRandom := random, draws := draws, clientSeq := seq, sealed := calls, tcp := tcp } ∧
      phase ≠ .established ∧ (s.version ≠ 12 → s.clientHs.key = [] → seq = s.clientSeq ∧ calls = s.sealed) := by
  dsimp only [Tls.sendClientHello]
  obtain ⟨seq, calls, tcp, frame, -, clear⟩ := Tls.sendRecord_frame P env ctHandshake
    (Tls.clientHello s.hostStr (s.randomBytes env 1) (publicKey P (s.randomBytes env 0)))
    { s with
      priv := s.randomBytes env 0, pub := publicKey P (s.randomBytes env 0),
      clientRandom := s.randomBytes env 1, draws := s.draws + 2, transcript := s.transcript ++
        Tls.clientHello s.hostStr (s.randomBytes env 1) (publicKey P (s.randomBytes env 0)) }
  rw [frame]
  split
  · exact ⟨_, _, _, _, _, _, _, _, _, _, rfl, handshaking.trans_ne nofun, clear⟩
  · exact ⟨_, _, _, _, _, _, _, _, _, _, rfl, nofun, clear⟩

theorem start_origins (host : Bytes) (port : UInt16) (s : Tls) : Origins [] (s.start env host port).2 := by
  dsimp only [Tls.start]
  split
  · exact .start rfl rfl ⟨rfl, rfl⟩ rfl nofun
  split
  · exact .start rfl rfl ⟨rfl, rfl⟩ rfl nofun
  · split <;> exact .start rfl rfl ⟨rfl, rfl⟩ rfl nofun

theorem History.move {σ τ : Session} (h : History P σ) (move : Move P σ τ) : History P τ := by
  cases move with
  | message env msg alive busy =>
    have effect := Session.dispatch_effect P env msg σ
    have before := (h.present alive).decided msg
    refine ⟨(chronicle_snoc _).mpr ⟨h.entries, before, ?_, env, rfl⟩, fun alive' => ?_⟩
    · exact (Tls.decideVersion_phase msg _).trans_ne alive
    · exact before.message (effect.footprint P env alive') (decideVersion_decided msg _)
  | data hdr record o s alive opened kind =>
    have before := h.present alive
    refine ⟨(chronicle_snoc _).mpr ⟨h.entries, before, kind, hdr, record, s, opened⟩, fun _ => ?_⟩
    obtain ⟨_, _, _, appended⟩ := Tls.appended_frame P opened
    rw [appended]
    exact { before.data σ.tls o with }
  | flight env v due =>
    refine ⟨h.entries, fun alive => ?_⟩
    obtain ⟨⟨_, phase, _, _, _, _, _, frame⟩, ended⟩ :=
      (Tls.Flown.flies P env).sendFlight12 P env { σ.tls with step12 := 2 }
    have same := ended.resolve_right alive
    have before := h.present (same.symm.trans_ne alive)
    have done := before.flight (.inl due)
    rw [frame] at same ⊢
    have kept := before.rephase phase (.inl same)
    exact { kept with flight := fun _ => done }
  | hello env connecting =>
    refine ⟨h.entries, fun _ => ?_⟩
    have before := h.present (connecting.trans_ne nofun)
    obtain ⟨phase, _, _, _, _, _, _, _, _, _, frame, ended, -⟩ :=
      sendClientHello_frame P env { σ.tls with phase := .handshaking } rfl
    rw [frame]
    exact { before.rephase phase (.inr ended) with }
  | record env kind body ours =>
    refine ⟨h.entries, fun alive => ?_⟩
    obtain ⟨_, _, _, frame, -⟩ := Tls.sendRecord_frame P env kind body σ.tls
    rw [frame] at alive ⊢
    exact { h.present alive with }
  | quiet t quiet =>
    refine ⟨h.entries, fun alive => quiet.origins alive (h.present fun failed => ?_)⟩
    rcases quiet.phase with same | failed' | closed
    · exact alive (same.trans failed)
    · exact alive failed'
    · exact closed.2 failed
  | restart env host port => exact ⟨chronicle_nil, fun _ => start_origins env host port σ.tls⟩

theorem history (calls : List Call) : History P (Session.after P calls) := by
  refine Session.after_invariant P (History P) ?_ (fun _ _ h move => h.move P move) calls
  exact ⟨chronicle_nil, fun _ => .start rfl rfl ⟨rfl, rfl⟩ rfl nofun⟩

theorem hostStr_of_host (same : s.host = t.host) : s.hostStr = t.hostStr := by
  unfold Tls.hostStr
  rw [same]

theorem established_phase (established : s.established = true) : s.phase = .established := by
  simp only [Tls.established, Bool.and_eq_true, decide_eq_true_eq] at established
  exact established.1

end BarryOS.Crypto
