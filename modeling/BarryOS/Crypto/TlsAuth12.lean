import BarryOS.Crypto.TlsForged
import BarryOS.Crypto.TlsKeys
import BarryOS.Crypto.TlsTrust

/-!
# Who the server is, in TLS 1.2

The certificate is checked when it arrives, the key exchange is checked with its key, and the
Finished with what the key exchange left. Three things are not: a certificate that fails is
kept and the connection goes on, one that comes before the ServerHello is not checked at all,
and a Finished is compared with zeros where there has been no key exchange.
-/

namespace BarryOS.Crypto

open Lib X509

variable (P : Primitives) {env : Env} {ok : Bool}

/-- What the certificate of a TLS 1.2 handshake is answered with. -/
theorem certificate12_answer {msg chain : Bytes} {s t : Tls} (v : s.version = 12)
    (kind : octet msg 0 = hsCertificate) (list : certificateList (msg.drop 4) false = some chain)
    (handled : s.handleMessage P env msg = (ok, t)) : ok = chainAndNameOk P chain s.hostStr := by
  unfold Tls.handleMessage at handled
  rw [if_pos v] at handled
  unfold Tls.handleHandshake12 at handled
  rw [kind, if_neg (by decide)] at handled
  unfold Tls.certificate12 Tls.handleCertificate at handled
  rw [list] at handled
  cases handled
  rfl

/-- What a TLS 1.2 handshake ends in: a certificate, a key exchange it signed, keys from that
exchange, and a Finished under those keys. -/
structure Exchanged12 (host : Bytes) (cb : Tls) (cm : Bytes) (xb : Tls) (xm : Bytes) (xa db : Tls) (dm : Bytes)
    (fb : Tls) (fm : Bytes) (leaf : Cert) (x : KeyExchange) : Prop where
  certificate : octet cm 0 = hsCertificate
  stored : certificateList (cm.drop 4) (cb.version ≠ 12) = some xb.chain
  trusted : chainTrusted P xb.chain = true
  parsed : X509.parse (leafDer xb.chain) = some leaf
  name : hostnameMatches leaf host = true
  exchange : octet xm 0 = hsServerKeyExchange
  read : readKeyExchange (xm.drop 4) = some x
  signed : verifyHandshakeSignature P (xb.hs12.signedParams x.params) x.sig x.scheme leaf.keyAlg leaf.curve
    leaf.key = true
  shared : ∃ priv, sharedSecret P x.group priv x.point = some xa.hs12.preMaster
  done : octet dm 0 = hsServerHelloDone
  preMaster : db.hs12.preMaster = xa.hs12.preMaster
  master : fb.hs12.master = db.hs12.masterOf P
  checked : constantTimeEq (fb.hs12.finishedVerifyData P labelServerFinished (fb.transcriptHash P))
    (slice fm 4 16) = true

/-- The three were taken in that order, before a Finished. -/
def Authenticated12 (host : Bytes) (earlier : List Entry) (fb : Tls) (fm : Bytes) : Prop :=
  ∃ front cb cm ca middle xb xm xa later db dm da rear leaf x,
    Exchanged12 P host cb cm xb xm xa db dm fb fm leaf x ∧
    earlier = front ++ .message cb cm true ca :: (middle ++ .message xb xm true xa ::
      (later ++ .message db dm true da :: rear))

/-- Whenever a Finished was taken the server had been authenticated, and one was; and a
certificate that fails has ended the connection. -/
structure ServerAuthenticated12 (σ : Session) : Prop where
  finished : σ.tls.established = true → σ.tls.version = 12 →
    ∃ b m a, Entry.message b m true a ∈ σ.log ∧ b.version = 12 ∧ octet m 0 = hsFinished
  before : σ.tls.established = true → σ.tls.version = 12 → ∀ earlier b m a later,
    σ.log = earlier ++ .message b m true a :: later → b.version = 12 → octet m 0 = hsFinished →
      Authenticated12 P σ.tls.hostStr earlier b m
  failing : ∀ b m ok a chain, Entry.message b m ok a ∈ σ.log → b.version = 12 → octet m 0 = hsCertificate →
    certificateList (m.drop 4) false = some chain → chainAndNameOk P chain b.hostStr = false → σ.tls.phase = .failed

/-- A certificate that passes, or something else. -/
def Entry.passes : Entry → Bool
  | .message b m _ _ =>
    octet m 0 ≠ hsCertificate ||
      match certificateList (m.drop 4) (b.version ≠ 12) with
      | some chain => chainAndNameOk P chain b.hostStr
      | none => true
  | .data _ _ => true

/-- Every chain the server sends passes, and no Finished of TLS 1.2 comes without a
ServerHelloDone before it. -/
structure Orderly12 (log : List Entry) : Prop where
  certificates : log.all (Entry.passes P) = true
  finished : Chronicle
    (fun earlier e => e.is12 hsFinished = true → earlier.any (Entry.is12 hsServerHelloDone) = true) log

instance (log : List Entry) : Decidable (Orderly12 P log) :=
  decidable_of_iff (log.all (Entry.passes P) = true ∧ Chronicle
    (fun earlier e => e.is12 hsFinished = true → earlier.any (Entry.is12 hsServerHelloDone) = true) log)
    ⟨fun h => ⟨h.1, h.2⟩, fun h => ⟨h.1, h.2⟩⟩

variable {log : List Entry} {m chain : Bytes}

theorem Orderly12.passes (orderly : Orderly12 P log) {b : Tls} {a : Tls} (member : Entry.message b m ok a ∈ log)
    (kind : octet m 0 = hsCertificate)
    (list : certificateList (m.drop 4) (b.version ≠ 12) = some chain) : chainAndNameOk P chain b.hostStr = true := by
  have passes := List.all_eq_true.mp orderly.certificates _ member
  dsimp only [Entry.passes] at passes
  rw [list] at passes
  simpa [kind] using passes

/-- A certificate the log holds was taken, if it passes. -/
theorem certificate_taken {s : Tls} (entries : Chronicle (Genuine P) log) (origins : Origins log s) {b : Tls} {a : Tls}
    (member : Entry.message b m ok a ∈ log) (kind : octet m 0 = hsCertificate)
    (list : certificateList (m.drop 4) (b.version ≠ 12) = some chain)
    (passes : chainAndNameOk P chain b.hostStr = true) : ok = true := by
  obtain ⟨-, -, -, -, -, env, handled⟩ := entries.of_mem member
  by_cases v : b.version = 12
  · rw [certificate12_answer P v kind (by simpa [v] using list) handled]
    exact passes
  cases ok with
  | true => rfl
  | false => exact absurd (origins.answered b m a member).1 v

/-- What has to stand before a Finished, found from the end backwards: the ServerHelloDone left
the keys, the key exchange left their secret, and a certificate left the chain. -/
theorem authenticated12_of_done {log earlier later : List Entry} {b a : Tls}
    (entries : Chronicle (Genuine P) log) (orderly : Orderly12 P log)
    (split : log = earlier ++ .message b m true a :: later) (v : b.version = 12) (kind : octet m 0 = hsFinished) :
    Authenticated12 P b.hostStr earlier b m := by
  obtain ⟨origins, -, _, handled⟩ := entries earlier _ later split
  have checked := ((Tls.effect_of_handled P handled).taken12 P v).2.2 kind
  obtain ⟨db, dm, dok, da, dmember, rfl, dv, done, keys⟩ :=
    origins.derived ((heard12_iff _ _).mp (orderly.finished earlier _ later split (by simp [Entry.is12, v, kind])))
  obtain ⟨beforeDone, rear, dsplit, dorigins, -, _, dhandled⟩ := (entries.earlier split).of_mem dmember
  obtain ⟨secret, master⟩ := deriveKeys_true P (((Tls.effect_of_handled P dhandled).taken12 P dv).2.1 done)
  obtain ⟨xb, xm, xok, xa, xmember, rfl, xv, exchange, same⟩ := dorigins.exchange.resolve_left secret
  have entriesDone := (entries.earlier split).earlier dsplit
  obtain ⟨beforeExchange, between, xsplit, xorigins, -, _, xhandled⟩ := entriesDone.of_mem xmember
  obtain ⟨leaf, x, priv, parsed, read, signed, shared⟩ := ((Tls.effect_of_handled P xhandled).taken12 P xv).1 exchange
  have chain := xorigins.chain.resolve_left fun none => by
    rw [none] at parsed
    exact absurd parsed (by simp [leafDer, parse_nil])
  obtain ⟨cb, cm, cok, ca, cmember, certificate, stored⟩ := chain
  have logged : Entry.message cb cm cok ca ∈ log := by
    rw [split, dsplit, xsplit]
    simp [cmember]
  have passes := orderly.passes P logged certificate stored
  obtain rfl := certificate_taken P (entriesDone.earlier xsplit) xorigins cmember certificate stored passes
  obtain ⟨leaf', parsed', trusted, name⟩ := chainAndNameOk_true P passes
  rw [parsed] at parsed'
  cases parsed'
  have host : cb.hostStr = b.hostStr := hostStr_of_host (origins.host cb cm true ca (by
    rw [dsplit, xsplit]
    simp [cmember]))
  obtain ⟨front, middle, csplit⟩ := List.append_of_mem cmember
  refine ⟨front, cb, cm, ca, middle, xb, xm, xa, between, db, dm, da, rear, leaf, x, ?_, ?_⟩
  · exact ⟨certificate, stored, trusted, parsed, host ▸ name, exchange, read, signed, ⟨priv, shared⟩, done,
      same.symm, keys.1.symm.trans master, checked⟩
  · rw [dsplit, xsplit, csplit]
    simp

/-- In every run whose server sends chains that pass and a ServerHelloDone before its Finished,
an established TLS 1.2 connection is authenticated, and no failing certificate is survived. -/
theorem established12_authenticated (calls : List Call) (orderly : Orderly12 P (Session.after P calls).log) :
    ServerAuthenticated12 P (Session.after P calls) := by
  obtain ⟨entries, present⟩ := history P calls
  refine ⟨fun established v => ?_, fun established v earlier b m a later split bv kind => ?_,
    fun b m ok a chain member v kind list fails => ?_⟩
  · have phase := established_phase established
    obtain ⟨b, m, ok, a, member, rfl, same, kind, -⟩ := (present (phase.trans_ne nofun)).finished phase
    exact ⟨b, m, a, member, same.trans v, kind⟩
  · have origins := present ((established_phase established).trans_ne nofun)
    rw [← hostStr_of_host (origins.host b m true a (by rw [split]; simp))]
    exact authenticated12_of_done P entries orderly split bv kind
  · have read : certificateList (m.drop 4) (b.version ≠ 12) = some chain := by simpa [v] using list
    have passes := orderly.passes P member kind read
    rw [fails] at passes
    cases passes

/-- A TLS 1.2 handshake in good order, for `samplePrimitives`: the second part answers the
client's own flight. -/
def honest12 : List (List Session.Framed) :=
  [[⟨ctHandshake, hello12⟩, ⟨ctHandshake, wrap hsCertificate sampleBody⟩,
      ⟨ctHandshake, wrap hsServerKeyExchange ([3] ++ be16 groupX25519 ++ [32] ++ zeros 32 ++
        be16 sigEcdsaSha256 ++ be16 8 ++ [0x30, 6, 2, 1, 1, 2, 1, 1])⟩,
      ⟨ctHandshake, wrap hsServerHelloDone []⟩],
    [⟨ctChangeCipherSpec, [1]⟩, ⟨ctHandshake, zeros 8 ++ wrap hsFinished (zeros 12) ++ zeros 16⟩]]

theorem honest12_established : (Session.after samplePrimitives (serverSays honest12)).tls.established = true ∧
      (Session.after samplePrimitives (serverSays honest12)).tls.version = 12 ∧
      Orderly12 samplePrimitives (Session.after samplePrimitives (serverSays honest12)).log := by
  decide +kernel

theorem honest12_authenticated : (Session.after samplePrimitives (serverSays honest12)).tls.established = true ∧
      (Session.after samplePrimitives (serverSays honest12)).tls.version = 12 ∧
      ServerAuthenticated12 samplePrimitives (Session.after samplePrimitives (serverSays honest12)) :=
  ⟨honest12_established.1, honest12_established.2.1,
    established12_authenticated samplePrimitives (serverSays honest12) honest12_established.2.2⟩

/-- Whatever the primitives are: a ServerHello and a Finished keyed with the zeros the master
secret starts as, and the client reports a connection without any certificate. -/
theorem established12_without_certificate : ¬ ∃ P : Primitives, ∀ calls,
    ServerAuthenticated12 P (Session.after P calls) := by
  rintro ⟨P, always⟩
  obtain ⟨tcp, tcp', -, calls, reached⟩ := forged12_reachable P
  have authenticated := always calls
  rw [reached] at authenticated
  obtain ⟨front, cb, cm, ca, middle, xb, xm, xa, later, db, dm, da, rear, leaf, x, -, split⟩ :=
    authenticated.before rfl rfl [helloEntry12 (greeted P tcp)] _ _ _ [] rfl rfl rfl
  -- three messages do not fit in front of the Finished
  have count := congrArg List.length split
  simp only [List.length_cons, List.length_append, List.length_nil] at count
  omega

end BarryOS.Crypto
