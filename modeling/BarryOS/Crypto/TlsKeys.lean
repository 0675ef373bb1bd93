import BarryOS.Crypto.TlsHistory

/-!
# Where the traffic keys come from

In TLS 1.3 the application keys come from a Finished, and the secret behind them from the
share of a ServerHello. In TLS 1.2 all four values come from a ServerHelloDone, and the secret
behind them from a ServerKeyExchange. `keyed13` and `keyed12` find those messages in the log.
-/

namespace BarryOS.Crypto

open Lib

variable (P : Primitives) {env : Env}

/-! ## What the messages leave -/

theorem serverKeyExchange_true {body keyAlg curve key : Bytes} {random : Nat → Bytes} {g h : Handshake} {n : Nat}
    (taken : g.serverKeyExchange P body keyAlg curve key random = (true, h, n)) : ∃ x priv,
      readKeyExchange body = some x ∧
      verifyHandshakeSignature P (g.signedParams x.params) x.sig x.scheme keyAlg curve key = true ∧
      sharedSecret P x.group priv x.point = some h.preMaster := by
  unfold Handshake.serverKeyExchange at taken
  split at taken
  · cases taken
  rename_i x read
  split at taken
  · cases taken
  rename_i signed
  split at taken
  · cases taken
  rename_i priv pub m pair
  split at taken
  · cases taken
  rename_i shared agreed
  cases taken
  exact ⟨x, priv, read, by simpa using signed, agreed⟩

/-- What a message of TLS 1.3 has passed that is taken. -/
theorem Tls.Effect.taken13 {msg : Bytes} {s t : Tls} (h : Tls.Effect P env msg s true t) (v : s.version ≠ 12) :
    (octet msg 0 = hsServerHello → ∃ share, readServerHello (msg.drop 4) = .ok share ∧
      (scalarmult P s.priv share).all (· = 0) = false ∧ t.hsSecret = handshakeSecret P (scalarmult P s.priv share) ∧
      t.sHsSecret = deriveSecret P t.hsSecret labelServerHs (sha256 P (s.transcript ++ msg))) ∧
    (octet msg 0 = hsCertificateVerify →
      verifyWithChain P s.chain s.hostStr (certificateVerifyInput (s.transcriptHash P))
        (slice msg 8 (8 + (be16At msg 6).toNat)) (be16At msg 4) = true) ∧ (octet msg 0 = hsFinished → s.haveHs = true ∧
      constantTimeEq (finishedMac P s.sHsSecret (s.transcriptHash P)) (msg.drop 4) = true ∧
      t.clientAp = (Tls.finishing P msg s).clientAp ∧ t.serverAp = (Tls.finishing P msg s).serverAp) := by
  have other : ∀ {k k' : UInt8} {p : Prop}, octet msg 0 = k → k ≠ k' → octet msg 0 = k' → p :=
    fun is different is' => absurd (is.symm.trans is') different
  generalize answer : true = ok at h
  cases h with
  | refused => cases answer
  | hello _ is share read usable =>
    exact ⟨fun _ => ⟨share, read, usable, rfl, rfl⟩, other is (by decide), other is (by decide)⟩
  | certificate _ is => exact ⟨other is (by decide), other is (by decide), other is (by decide)⟩
  | verify _ is signed => exact ⟨other is (by decide), fun _ => signed, other is (by decide)⟩
  | finished _ is keyed mac =>
    refine ⟨other is (by decide), other is (by decide), fun _ => ?_⟩
    obtain ⟨_, _, _, _, -, sent | unsent⟩ := Tls.sendFinished_cases P env (Tls.finishing P msg s)
    · rw [sent]
      exact ⟨keyed, mac, rfl, rfl⟩
    · rw [unsent] at answer
      cases answer
  | other _ plain =>
    exact ⟨fun is => absurd is plain.1, fun is => absurd is plain.2.2.1, fun is => absurd is plain.2.2.2⟩
  | hello12 is | certificate12 is | keyExchange12 is | request12 is | done12 is | finished12 is
  | other12 is => exact absurd is v

/-- And one of TLS 1.2. -/
theorem Tls.Effect.taken12 {msg : Bytes} {s t : Tls} (h : Tls.Effect P env msg s true t) (v : s.version = 12) :
    (octet msg 0 = hsServerKeyExchange → ∃ leaf x priv,
      X509.parse (leafDer s.chain) = some leaf ∧ readKeyExchange (msg.drop 4) = some x ∧
      verifyHandshakeSignature P (s.hs12.signedParams x.params) x.sig x.scheme leaf.keyAlg leaf.curve leaf.key = true ∧
      sharedSecret P x.group priv x.point = some t.hs12.preMaster) ∧
    (octet msg 0 = hsServerHelloDone → s.hs12.deriveKeys P = (true, t.hs12)) ∧ (octet msg 0 = hsFinished →
      constantTimeEq (s.hs12.finishedVerifyData P labelServerFinished (s.transcriptHash P)) (slice msg 4 16) =
        true) := by
  have other : ∀ {k k' : UInt8} {p : Prop}, octet msg 0 = k → k ≠ k' → octet msg 0 = k' → p :=
    fun is different is' => absurd (is.symm.trans is') different
  generalize answer : true = ok at h
  cases h with
  | refused => cases answer
  | hello is | certificate is | verify is | finished is | other is => exact absurd v is
  | hello12 _ is | certificate12 _ is | request12 _ is =>
    exact ⟨other is (by decide), other is (by decide), other is (by decide)⟩
  | keyExchange12 _ is leaf parsed h n signed =>
    obtain ⟨x, priv, read, signed, shared⟩ := serverKeyExchange_true P signed
    exact ⟨fun _ => ⟨leaf, x, priv, parsed, read, signed, shared⟩, other is (by decide), other is (by decide)⟩
  | done12 _ is h derived => exact ⟨other is (by decide), fun _ => derived, other is (by decide)⟩
  | finished12 _ is _ mac => exact ⟨other is (by decide), other is (by decide), fun _ => mac⟩
  | other12 _ plain =>
    exact ⟨fun is => absurd is plain.2.2.1, fun is => absurd is plain.2.2.2.2.1, fun is => absurd is plain.2.2.2.2.2⟩

theorem deriveKeys_true {g h : Handshake} (derived : g.deriveKeys P = (true, h)) :
    g.preMaster ≠ [] ∧ h.master = g.masterOf P := by
  unfold Handshake.deriveKeys at derived
  split at derived
  · cases derived
  rename_i some'
  cases derived
  exact ⟨by simpa using some', rfl⟩

/-! ## Found in the log -/

/-- The application keys of TLS 1.3, from the share of a ServerHello and the transcript up to a
Finished, which is checked under the server's handshake secret of that ServerHello. -/
structure Schedule13 (hb : Tls) (hm : Bytes) (fb : Tls) (fm share : Bytes) (client server : Keys) : Prop where
  hello : octet hm 0 = hsServerHello
  read : readServerHello (hm.drop 4) = .ok share
  usable : (scalarmult P hb.priv share).all (· = 0) = false
  finished : octet fm 0 = hsFinished
  checked : constantTimeEq (finishedMac P fb.sHsSecret (fb.transcriptHash P)) (fm.drop 4) = true
  secret : fb.hsSecret = handshakeSecret P (scalarmult P hb.priv share)
  serverSecret : fb.sHsSecret = deriveSecret P fb.hsSecret labelServerHs (sha256 P (hb.transcript ++ hm))
  client : client = makeKeys P (deriveSecret P (masterSecret P fb.hsSecret) labelClientAp
    (sha256 P (fb.transcript ++ fm)))
  server : server = makeKeys P (deriveSecret P (masterSecret P fb.hsSecret) labelServerAp
    (sha256 P (fb.transcript ++ fm)))

/-- Both messages were taken. -/
def Keyed13 (log : List Entry) (client server : Keys) : Prop :=
  ∃ hb hm ha fb fm fa share, Schedule13 P hb hm fb fm share client server ∧
    Entry.message hb hm true ha ∈ log ∧ Entry.message fb fm true fa ∈ log

/-- The keys of TLS 1.2, from the secret of a ServerKeyExchange. -/
structure Schedule12 (xm : Bytes) (xa db : Tls) (dm : Bytes) (x : KeyExchange) (priv : Bytes)
    (h : Handshake) : Prop where
  exchange : octet xm 0 = hsServerKeyExchange
  read : readKeyExchange (xm.drop 4) = some x
  shared : sharedSecret P x.group priv x.point = some xa.hs12.preMaster
  done : octet dm 0 = hsServerHelloDone
  secret : db.hs12.preMaster = xa.hs12.preMaster
  derived : ∃ g, db.hs12.deriveKeys P = (true, g) ∧ g.SameKeys h

def Keyed12 (log : List Entry) (h : Handshake) : Prop :=
  ∃ xb xm xa db dm da x priv, Schedule12 P xm xa db dm x priv h ∧
    Entry.message xb xm true xa ∈ log ∧ Entry.message db dm true da ∈ log

theorem keyed13 {log : List Entry} {s : Tls} (entries : Chronicle (Genuine P) log) (origins : Origins log s)
    (established : s.phase = .established) (v : s.version ≠ 12) : Keyed13 P log s.clientAp s.serverAp := by
  obtain ⟨fb, fm, ok, fa, member, rfl, same, finished, keys⟩ := origins.finished established
  obtain ⟨client, server⟩ := keys v
  obtain ⟨earlier, later, split, before, -, _, handled⟩ := entries.of_mem member
  obtain ⟨keyed, checked, client', server'⟩ :=
    ((Tls.effect_of_handled P handled).taken13 P (same.trans_ne v)).2.2 finished
  obtain ⟨hb, hm, ok, ha, hmember, rfl, hv, hello, secret, serverSecret⟩ := before.hello keyed
  have logged : Entry.message hb hm true ha ∈ log := by
    rw [split]
    exact List.mem_append_left _ hmember
  obtain ⟨-, -, -, -, -, _, hhandled⟩ := entries.of_mem logged
  obtain ⟨share, read, usable, left, server₀⟩ := ((Tls.effect_of_handled P hhandled).taken13 P hv).1 hello
  rw [secret, serverSecret] at server₀
  exact ⟨hb, hm, ha, fb, fm, fa, share, ⟨hello, read, usable, finished, checked, secret.symm.trans left, server₀,
    client.symm.trans client', server.symm.trans server'⟩, logged, member⟩

theorem keyed12 {log : List Entry} {s : Tls} (entries : Chronicle (Genuine P) log) (origins : Origins log s)
    (heard : Heard log fun b m _ _ => b.version = 12 ∧ octet m 0 = hsServerHelloDone) : Keyed12 P log s.hs12 := by
  obtain ⟨db, dm, ok, da, member, rfl, dv, done, keys⟩ := origins.derived heard
  obtain ⟨earlier, later, split, before, -, _, handled⟩ := entries.of_mem member
  have derived := ((Tls.effect_of_handled P handled).taken12 P dv).2.1 done
  obtain ⟨xb, xm, ok, xa, xmember, rfl, xv, exchange, same⟩ :=
    before.exchange.resolve_left (deriveKeys_true P derived).1
  have logged : Entry.message xb xm true xa ∈ log := by
    rw [split]
    exact List.mem_append_left _ xmember
  obtain ⟨-, -, -, -, -, _, xhandled⟩ := entries.of_mem logged
  obtain ⟨-, x, priv, -, read, -, shared⟩ := ((Tls.effect_of_handled P xhandled).taken12 P xv).1 exchange
  exact ⟨xb, xm, xa, db, dm, da, x, priv, ⟨exchange, read, shared, done, same.symm, _, derived, keys⟩, logged, member⟩

end BarryOS.Crypto
