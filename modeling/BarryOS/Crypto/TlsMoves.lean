import BarryOS.Crypto.Tls
import BarryOS.Net.TcpFrame

/-!
# What the client can do, move by move

`Effect` says what a handshake message can do to the state, one constructor per outcome of
the two `match`es over message types. `Move` is the grain below a call: a message, a record
of application data, our own flight, a record out, or something that touches no secret. A
call is a sequence of moves (`step_moves`), so that an invariant is proved move by move.
-/

namespace BarryOS.Crypto

open Lib Net

variable (P : Primitives) (env : Env) {s t : Tls}

namespace Tls

/-! ## Sending -/

variable (kind : UInt8) (body : Bytes)

theorem recordOut_cases (s : Tls) :
    (s.version = 12 → s.clientCipher = false) ∧ (s.version ≠ 12 → (s.clientKeys kind).key = []) ∧
        s.recordOut P kind body = (plainRecord kind body, s) ∨
      s.version = 12 ∧ s.clientCipher = true ∧ s.recordOut P kind body =
          (record12 P kind s.clientSeq (s.call12 kind body), s.sealing (s.call12 kind body)) ∨
      s.version ≠ 12 ∧ (s.clientKeys kind).key ≠ [] ∧
        s.recordOut P kind body = (record13 P (s.call13 kind body), s.sealing (s.call13 kind body)) := by
  unfold recordOut
  split
  next v =>
    unfold recordOut12
    split
    next off => exact .inl ⟨fun _ => by simpa using off, fun not => absurd v not, rfl⟩
    next on => exact .inr (.inl ⟨v, by simpa using on, rfl⟩)
  next v =>
    split
    next none => exact .inl ⟨fun is => absurd is v, fun _ => by simpa using none, rfl⟩
    next installed => exact .inr (.inr ⟨v, by simpa using installed, rfl⟩)

theorem handOver_frame (out : Option Bytes) (s : Tls) :
    ∃ tcp, (s.handOver env out).2 = { s with tcp := tcp } ∧ tcp.rx = s.tcp.rx := by
  cases out with
  | none => exact ⟨s.tcp, rfl, rfl⟩
  | some octets => exact ⟨_, rfl, Tcp.Tcb.send_rx _ _ _⟩

theorem sendRecord_cases (s : Tls) : ∃ tcp, tcp.rx = s.tcp.rx ∧
    ((s.version = 12 → s.clientCipher = false) ∧ (s.version ≠ 12 → (s.clientKeys kind).key = []) ∧
        (s.sendRecord P env kind body).2 = { s with tcp := tcp } ∨ s.version = 12 ∧ s.clientCipher = true ∧
        (s.sendRecord P env kind body).2 = { s.sealing (s.call12 kind body) with tcp := tcp } ∨
      s.version ≠ 12 ∧ (s.clientKeys kind).key ≠ [] ∧
        (s.sendRecord P env kind body).2 = { s.sealing (s.call13 kind body) with tcp := tcp }) := by
  unfold sendRecord
  obtain ⟨tcp, frame, rx⟩ := handOver_frame env (s.recordOut P kind body).1 (s.recordOut P kind body).2
  rw [frame]
  refine ⟨tcp, ?_⟩
  rcases recordOut_cases P kind body s with ⟨off, none, out⟩ | ⟨v, on, out⟩ | ⟨v, installed, out⟩
  all_goals rw [out] at rx ⊢
  · exact ⟨rx, .inl ⟨off, none, rfl⟩⟩
  · exact ⟨rx, .inr (.inl ⟨v, on, rfl⟩)⟩
  · exact ⟨rx, .inr (.inr ⟨v, installed, rfl⟩)⟩

/-- A record out touches the counter, the history of sealings and the transport. -/
theorem sendRecord_frame (s : Tls) : ∃ seq calls tcp, (s.sendRecord P env kind body).2 =
      { s with clientSeq := seq, sealed := calls, tcp := tcp } ∧ tcp.rx = s.tcp.rx ∧
      (s.version ≠ 12 → (s.clientKeys kind).key = [] → seq = s.clientSeq ∧ calls = s.sealed) := by
  obtain ⟨tcp, rx, ⟨-, -, same⟩ | ⟨v, -, same⟩ | ⟨-, installed, same⟩⟩ := sendRecord_cases P env kind body s
  · exact ⟨_, _, tcp, same, rx, fun _ _ => ⟨rfl, rfl⟩⟩
  · exact ⟨_, _, tcp, same, rx, fun not => absurd v not⟩
  · exact ⟨_, _, tcp, same, rx, fun _ none => absurd none installed⟩

/-- Our TLS 1.3 Finished goes out and the handshake is over, or the connection is. -/
theorem sendFinished_cases (s : Tls) : ∃ transcript seq calls tcp, tcp.rx = s.tcp.rx ∧
    (s.sendFinished P env = (true, { s with
        transcript := transcript, clientSeq := 0, sealed := calls, tcp := tcp, phase := .established }) ∨
      s.sendFinished P env = (false, ({ s with
        transcript := transcript, clientSeq := seq, sealed := calls, tcp := tcp }).fail 6)) := by
  dsimp only [sendFinished]
  obtain ⟨seq, calls, tcp, frame, rx, -⟩ := sendRecord_frame P env ctHandshake (s.clientFinished P)
    (s.transcriptUpdate (s.clientFinished P))
  refine ⟨s.transcript ++ s.clientFinished P, seq, calls, tcp, rx, ?_⟩
  rw [frame]
  split
  · exact .inr rfl
  · exact .inl rfl

/-- What the parts of our flight can do: the phase changes only to `failed`. -/
structure Flown (s t : Tls) : Prop where
  frame : ∃ error phase transcript cipher seq calls tcp, t = { s with
    error := error, phase := phase, transcript := transcript, clientCipher := cipher,
    clientSeq := seq, sealed := calls, tcp := tcp }
  phase : t.phase = s.phase ∨ t.phase = .failed

theorem Flown.refl (s : Tls) : Flown s s := ⟨⟨_, _, _, _, _, _, _, rfl⟩, .inl rfl⟩

theorem Flown.trans {s t u : Tls} (first : Flown s t) (second : Flown t u) : Flown s u := by
  obtain ⟨⟨_, _, _, _, _, _, _, rfl⟩, before⟩ := first
  obtain ⟨⟨_, _, _, _, _, _, _, rfl⟩, after⟩ := second
  refine ⟨⟨_, _, _, _, _, _, _, rfl⟩, ?_⟩
  rcases after with same | failed
  · rcases before with same' | failed'
    · exact .inl (same.trans same')
    · exact .inr (same.trans failed')
  · exact .inr failed

theorem Flown.fail (code : UInt8) (h : Flown s t) : Flown s (t.fail code) := by
  obtain ⟨⟨_, _, _, _, _, _, _, rfl⟩, -⟩ := h
  exact ⟨⟨_, _, _, _, _, _, _, rfl⟩, .inr rfl⟩

theorem sendRecord_flown (s : Tls) : Flown s (s.sendRecord P env kind body).2 := by
  obtain ⟨_, _, _, frame, -⟩ := sendRecord_frame P env kind body s
  rw [frame]
  exact ⟨⟨_, _, _, _, _, _, _, rfl⟩, .inl rfl⟩

/-- A relation that holds across a handshake message that goes out. -/
structure Speaks (R : Tls → Tls → Prop) : Prop where
  refl (s : Tls) : R s s
  trans {s t u : Tls} (first : R s t) (second : R t u) : R s u
  fail (code : UInt8) (s : Tls) : R s (s.fail code)
  note (msg : Bytes) (s : Tls) : R s (s.transcriptUpdate msg)
  sent {kind : UInt8} {body : Bytes} {s : Tls} (sent : (s.sendRecord P env kind body).1 = true) :
    R s (s.sendRecord P env kind body).2
  unsent (kind : UInt8) (body : Bytes) (code : UInt8) (s : Tls) : R s ((s.sendRecord P env kind body).2.fail code)

/-- And across everything our flight is made of. -/
structure Flies (R : Tls → Tls → Prop) : Prop extends Speaks P env R where
  on (s : Tls) : R s { s with clientCipher := true, clientSeq := 0 }

namespace Speaks

variable {R : Tls → Tls → Prop} (speaks : Speaks P env R)

include speaks

theorem sendHandshake12 (msg : Bytes) (s : Tls) : R s (s.sendHandshake12 P env msg).2 := by
  dsimp only [Tls.sendHandshake12]
  split
  next sent => exact speaks.trans (speaks.note msg s) (speaks.sent sent)
  · exact speaks.trans (speaks.note msg s) (speaks.unsent _ _ 2 _)

theorem sendEmptyCertificate12 (s : Tls) : R s (s.sendEmptyCertificate12 P env).2 := by
  unfold Tls.sendEmptyCertificate12
  split
  · exact sendHandshake12 P env speaks _ s
  · exact speaks.refl s

theorem sendKeyExchange12 (s : Tls) : R s (s.sendKeyExchange12 P env).2 := by
  dsimp only [Tls.sendKeyExchange12]
  split
  · exact speaks.fail 2 s
  · exact sendHandshake12 P env speaks _ s

end Speaks

namespace Flies

variable {R : Tls → Tls → Prop} (flies : Flies P env R)

include flies

theorem sendChangeCipherSpec12 (s : Tls) : R s (s.sendChangeCipherSpec12 P env).2 := by
  dsimp only [Tls.sendChangeCipherSpec12]
  split
  next sent => exact flies.trans (flies.sent sent) (flies.on _)
  · exact flies.unsent _ _ 2 s

theorem sendFinished12 (s : Tls) : R s (s.sendFinished12 P env).2 := by
  dsimp only [Tls.sendFinished12]
  split
  next sent => exact flies.trans (flies.sent sent) (flies.note _ _)
  · exact flies.unsent _ _ 2 s

theorem andThen {a b : Tls → Bool × Tls} (first : ∀ s, R s (a s).2)
    (second : ∀ s, R s (b s).2) (s : Tls) : R s (Tls.andThen a b s).2 := by
  dsimp only [Tls.andThen]
  split
  · exact flies.trans (first s) (second _)
  · exact first s

theorem sendFlight12 (s : Tls) : R s (s.sendFlight12 P env).2 := by
  apply andThen P env flies (flies.sendEmptyCertificate12 P env)
  apply andThen P env flies (flies.sendKeyExchange12 P env)
  exact andThen P env flies (sendChangeCipherSpec12 P env flies) (sendFinished12 P env flies)

end Flies

theorem Flown.flies : Flies P env Flown where
  refl := .refl
  trans := .trans
  fail code s := (Flown.refl s).fail code
  note _ _ := ⟨⟨_, _, _, _, _, _, _, rfl⟩, .inl rfl⟩
  sent _ := sendRecord_flown P env _ _ _
  unsent kind body code s := (sendRecord_flown P env kind body s).fail code
  on _ := ⟨⟨_, _, _, _, _, _, _, rfl⟩, .inl rfl⟩

/-! ## Messages -/

/-- A message that ends the connection. Whatever the handler had begun, no key in use and no
stored chain has changed. -/
structure Refused (s t : Tls) : Prop where
  frame : ∃ error transcript hs12 draws tcp, t = { s with
    error := error, phase := .failed, transcript := transcript, hs12 := hs12, draws := draws, tcp := tcp }
  keys : t.hs12.clientKey = s.hs12.clientKey ∧ t.hs12.clientIv = s.hs12.clientIv
  hungUp : ∃ tcp : Tcp.Tcb, t.tcp = tcp.reset

/-- The state in which our TLS 1.3 Finished is sent. -/
def finishing (msg : Bytes) (s : Tls) : Tls := (s.transcriptUpdate msg).installApplicationKeys P

/-- What a message does to the state its handler runs from, with what it answers. -/
inductive Effect (msg : Bytes) (s : Tls) : Bool → Tls → Prop where
  | refused (t : Tls) (refused : Refused s t) : Effect msg s false t
  | hello (v : s.version ≠ 12) (kind : octet msg 0 = hsServerHello) (share : Bytes)
      (read : readServerHello (msg.drop 4) = .ok share)
      (usable : (scalarmult P s.priv share).all (· = 0) = false) :
      Effect msg s true ((s.transcriptUpdate msg).installHandshakeKeys P (scalarmult P s.priv share))
  | certificate (v : s.version ≠ 12) (kind : octet msg 0 = hsCertificate) (chain : Bytes)
      (list : certificateList (msg.drop 4) true = some chain) :
      Effect msg s true { s.transcriptUpdate msg with chain := chain }
  | verify (v : s.version ≠ 12) (kind : octet msg 0 = hsCertificateVerify)
      (signed : verifyWithChain P s.chain s.hostStr (certificateVerifyInput (s.transcriptHash P))
        (slice msg 8 (8 + (be16At msg 6).toNat)) (be16At msg 4) = true) :
      Effect msg s true (s.transcriptUpdate msg)
  | finished (v : s.version ≠ 12) (kind : octet msg 0 = hsFinished) (keyed : s.haveHs = true)
      (mac : constantTimeEq (finishedMac P s.sHsSecret (s.transcriptHash P)) (msg.drop 4) = true) :
      Effect msg s ((finishing P msg s).sendFinished P env).1 ((finishing P msg s).sendFinished P env).2
  | other (v : s.version ≠ 12) (plain : octet msg 0 ≠ hsServerHello ∧ octet msg 0 ≠ hsCertificate ∧
      octet msg 0 ≠ hsCertificateVerify ∧ octet msg 0 ≠ hsFinished) :
      Effect msg s true (s.transcriptUpdate msg)
  | hello12 (v : s.version = 12) (kind : octet msg 0 = hsServerHello) (h : Handshake)
      (read : Handshake.serverHello (msg.drop 4) { s.hs12 with clientRandom := s.clientRandom } = (true, h)) :
      Effect msg s true { s.transcriptUpdate msg with hs12 := h }
  | certificate12 (v : s.version = 12) (kind : octet msg 0 = hsCertificate) (chain : Bytes)
      (list : certificateList (msg.drop 4) false = some chain) :
      Effect msg s (Crypto.chainAndNameOk P chain s.hostStr) { s.transcriptUpdate msg with chain := chain }
  | keyExchange12 (v : s.version = 12) (kind : octet msg 0 = hsServerKeyExchange) (leaf : X509.Cert)
      (parsed : X509.parse (leafDer s.chain) = some leaf) (h : Handshake) (n : Nat)
      (signed : s.hs12.serverKeyExchange P (msg.drop 4) leaf.keyAlg leaf.curve leaf.key
        (s.randomBytes env) = (true, h, n)) :
      Effect msg s true { s.transcriptUpdate msg with hs12 := h, draws := s.draws + n }
  | request12 (v : s.version = 12) (kind : octet msg 0 = hsCertificateRequest) :
      Effect msg s true { s.transcriptUpdate msg with hs12 := { s.hs12 with wantClientCert := true } }
  | done12 (v : s.version = 12) (kind : octet msg 0 = hsServerHelloDone) (h : Handshake)
      (derived : s.hs12.deriveKeys P = (true, h)) :
      Effect msg s true { s.transcriptUpdate msg with hs12 := h, step12 := 1 }
  | finished12 (v : s.version = 12) (kind : octet msg 0 = hsFinished) (length : msg.length = 16)
      (mac : constantTimeEq (s.hs12.finishedVerifyData P labelServerFinished (s.transcriptHash P))
        (slice msg 4 16) = true) :
      Effect msg s true
        { s.transcriptUpdate msg with step12 := 3, verified := true, phase := .established }
  | other12 (v : s.version = 12) (plain : octet msg 0 ≠ hsServerHello ∧ octet msg 0 ≠ hsCertificate ∧
      octet msg 0 ≠ hsServerKeyExchange ∧ octet msg 0 ≠ hsCertificateRequest ∧
      octet msg 0 ≠ hsServerHelloDone ∧ octet msg 0 ≠ hsFinished) :
      Effect msg s true (s.transcriptUpdate msg)

/-- What a handler answers and leaves is an effect of the message. -/
def Handles (msg : Bytes) (s : Tls) (result : Bool × Tls) : Prop := Effect P env msg s result.1 result.2

theorem Refused.of_fail (s : Tls) (transcript : Bytes) (code : UInt8) :
    Refused s (({ s with transcript := transcript }).fail code) :=
  ⟨⟨_, _, _, _, _, rfl⟩, ⟨rfl, rfl⟩, ⟨_, rfl⟩⟩

/-- A ServerHello touches the random and the suite, even where it is refused. -/
theorem serverHello_frame (h : Handshake) :
    ∃ random suite, (Handshake.serverHello body h).2 = { h with serverRandom := random, suite := suite } := by
  unfold Handshake.serverHello
  split
  · exact ⟨_, _, rfl⟩
  split
  · exact ⟨_, _, rfl⟩
  dsimp only
  split
  · exact ⟨_, _, rfl⟩
  split
  · exact ⟨_, _, rfl⟩
  · split <;> exact ⟨_, _, rfl⟩

theorem serverHello_keys (h : Handshake) : (Handshake.serverHello body h).2.clientKey = h.clientKey ∧
      (Handshake.serverHello body h).2.clientIv = h.clientIv := by
  obtain ⟨random, suite, frame⟩ := serverHello_frame body h
  rw [frame]
  exact ⟨rfl, rfl⟩

theorem serverKeyExchange_frame (body keyAlg curve key : Bytes) (random : Nat → Bytes) (h : Handshake) :
    ∃ group priv pub pre, (h.serverKeyExchange P body keyAlg curve key random).2.1 =
      { h with group := group, ourPrivate := priv, ourPublic := pub, preMaster := pre } := by
  unfold Handshake.serverKeyExchange
  split
  · exact ⟨_, _, _, _, rfl⟩
  split
  · exact ⟨_, _, _, _, rfl⟩
  split
  · exact ⟨_, _, _, _, rfl⟩
  · split <;> exact ⟨_, _, _, _, rfl⟩

theorem serverKeyExchange_keys (body keyAlg curve key : Bytes) (random : Nat → Bytes) (h : Handshake) :
    (h.serverKeyExchange P body keyAlg curve key random).2.1.clientKey = h.clientKey ∧
      (h.serverKeyExchange P body keyAlg curve key random).2.1.clientIv = h.clientIv := by
  obtain ⟨group, priv, pub, pre, frame⟩ := serverKeyExchange_frame P body keyAlg curve key random h
  rw [frame]
  exact ⟨rfl, rfl⟩

/-! ### One lemma per handler -/

section

variable (msg : Bytes) (s : Tls)

theorem handleServerHello_effect (v : s.version ≠ 12) (kind : octet msg 0 = hsServerHello) :
    Handles P env msg s ((s.transcriptUpdate msg).handleServerHello P (msg.drop 4)) := by
  unfold handleServerHello
  split
  · exact .refused _ (.of_fail s _ _)
  rename_i share read
  dsimp only
  split
  · exact .refused _ (.of_fail s _ _)
  next usable => exact .hello v kind share read (eq_false_of_ne_true usable)

theorem handleCertificate_effect (v : s.version ≠ 12) (kind : octet msg 0 = hsCertificate) :
    Handles P env msg s ((s.transcriptUpdate msg).handleCertificate (msg.drop 4) true) := by
  unfold handleCertificate
  split
  · exact .refused _ (.of_fail s _ _)
  next chain list => exact .certificate v kind chain list

theorem handleCertificateVerify_effect (v : s.version ≠ 12) (kind : octet msg 0 = hsCertificateVerify) :
    Handles P env msg s (if (s.handleCertificateVerify P (msg.drop 4)).1 then
        (true, (s.handleCertificateVerify P (msg.drop 4)).2.transcriptUpdate msg)
      else s.handleCertificateVerify P (msg.drop 4)) := by
  have signature : slice (msg.drop 4) 4 (4 + (be16At (msg.drop 4) 2).toNat) =
      slice msg 8 (8 + (be16At msg 6).toNat) := by
    simp only [slice, be16At_drop, List.drop_drop, Nat.add_sub_cancel_left]
  have scheme : be16At (msg.drop 4) 0 = be16At msg 4 := be16At_drop msg 4 0
  unfold handleCertificateVerify
  dsimp only
  split
  · exact .refused _ (.of_fail s _ _)
  rw [signature, scheme]
  split
  next signed => exact .verify v kind signed
  · exact .refused _ (.of_fail s _ _)

theorem handleFinished_effect (v : s.version ≠ 12) (kind : octet msg 0 = hsFinished) :
    Handles P env msg s (s.handleFinished P env msg) := by
  unfold handleFinished
  dsimp only
  split
  · exact .refused _ (.of_fail s _ _)
  split
  · exact .refused _ (.of_fail s _ _)
  rename_i keyed
  split
  · exact .refused _ (.of_fail s _ _)
  next mac => exact .finished v kind (by simpa using keyed) (by simpa using mac)

theorem handleHandshake13_effect (v : s.version ≠ 12) :
    Handles P env msg s (s.handleHandshake13 P env msg) := by
  unfold handleHandshake13
  dsimp only
  split
  next kind => exact handleServerHello_effect P env msg s v kind
  rename_i notHello
  split
  next kind => exact handleCertificate_effect P env msg s v kind
  rename_i notCertificate
  split
  next kind => exact handleCertificateVerify_effect P env msg s v kind
  rename_i notVerify
  split
  next kind => exact handleFinished_effect P env msg s v kind
  next notFinished => exact .other v ⟨notHello, notCertificate, notVerify, notFinished⟩

section

variable (v : s.version = 12)

include v

theorem serverHello12_effect (kind : octet msg 0 = hsServerHello) :
    Handles P env msg s ((s.transcriptUpdate msg).serverHello12 (msg.drop 4)) := by
  dsimp only [serverHello12]
  split
  next ok => exact .hello12 v kind _ (Prod.ext ok rfl)
  · refine .refused _ ⟨⟨_, _, _, _, _, rfl⟩, ?_, ⟨_, rfl⟩⟩
    exact serverHello_keys (msg.drop 4) { s.hs12 with clientRandom := s.clientRandom }

theorem certificate12_effect (kind : octet msg 0 = hsCertificate) :
    Handles P env msg s ((s.transcriptUpdate msg).certificate12 P (msg.drop 4)) := by
  unfold certificate12 handleCertificate
  cases list : certificateList (msg.drop 4) false with
  | none => exact .refused _ (.of_fail s _ _)
  | some chain => exact .certificate12 v kind chain list

theorem serverKeyExchange12_effect (kind : octet msg 0 = hsServerKeyExchange) :
    Handles P env msg s ((s.transcriptUpdate msg).serverKeyExchange12 P env (msg.drop 4)) := by
  unfold serverKeyExchange12
  split
  · exact .refused _ (.of_fail s _ _)
  rename_i leaf parsed
  dsimp only
  split
  next ok => exact .keyExchange12 v kind leaf parsed _ _ (Prod.ext ok rfl)
  · refine .refused _ ⟨⟨_, _, _, _, _, rfl⟩, ?_, ⟨_, rfl⟩⟩
    exact serverKeyExchange_keys P (msg.drop 4) leaf.keyAlg leaf.curve leaf.key (s.randomBytes env) s.hs12

theorem serverHelloDone12_effect (kind : octet msg 0 = hsServerHelloDone) :
    Handles P env msg s ((s.transcriptUpdate msg).serverHelloDone12 P) := by
  dsimp only [serverHelloDone12]
  split
  next ok => exact .done12 v kind _ (Prod.ext ok rfl)
  rename_i no
  have same : ((s.transcriptUpdate msg).hs12.deriveKeys P).2 = s.hs12 := by
    change (s.hs12.deriveKeys P).2 = s.hs12
    change ¬ (s.hs12.deriveKeys P).1 = true at no
    unfold Handshake.deriveKeys at no ⊢
    split at no
    next empty => rw [if_pos empty]
    · exact absurd rfl no
  refine .refused _ ⟨⟨_, _, _, _, _, rfl⟩, ?_, ⟨_, rfl⟩⟩
  exact ⟨congrArg Handshake.clientKey same, congrArg Handshake.clientIv same⟩

theorem serverFinished12_effect (kind : octet msg 0 = hsFinished) :
    Handles P env msg s (s.serverFinished12 P msg) := by
  unfold serverFinished12
  split
  · exact .refused _ (.of_fail s _ _)
  rename_i length
  split
  · exact .refused _ (.of_fail s _ _)
  next mac => exact .finished12 v kind (by simpa using length) (by simpa using mac)

theorem handleHandshake12_effect :
    Handles P env msg s (s.handleHandshake12 P env msg) := by
  unfold handleHandshake12
  dsimp only
  split
  next kind => exact serverHello12_effect P env msg s v kind
  rename_i notHello
  split
  next kind => exact certificate12_effect P env msg s v kind
  rename_i notCertificate
  split
  next kind => exact serverKeyExchange12_effect P env msg s v kind
  rename_i notExchange
  split
  next kind => exact .request12 v kind
  rename_i notRequest
  split
  next kind => exact serverHelloDone12_effect P env msg s v kind
  rename_i notDone
  split
  next kind => exact serverFinished12_effect P env msg s v kind
  next notFinished => exact .other12 v ⟨notHello, notCertificate, notExchange, notRequest, notDone, notFinished⟩

end

/-- Everything a message can do. -/
theorem handleMessage_effect : Effect P env msg s (s.handleMessage P env msg).1 (s.handleMessage P env msg).2 := by
  unfold handleMessage
  split
  next v => exact handleHandshake12_effect P env msg s v
  next v => exact handleHandshake13_effect P env msg s v

end

/-- A message leaves the phase as it is, ends the handshake, or fails and hangs up. -/
theorem Effect.phase {msg : Bytes} {ok : Bool} (h : Effect P env msg s ok t) : t.phase = s.phase ∨
    t.phase = .established ∨ ok = false ∧ t.phase = .failed ∧ ∃ tcp : Tcp.Tcb, t.tcp = tcp.reset := by
  cases h with
  | refused t refused =>
    refine .inr (.inr ⟨rfl, ?_, refused.hungUp⟩)
    obtain ⟨⟨_, _, _, _, _, rfl⟩, -, -⟩ := refused
    rfl
  | finished v kind keyed mac =>
    obtain ⟨_, _, _, _, -, sent | unsent⟩ := sendFinished_cases P env (finishing P msg s)
    · rw [sent]
      exact .inr (.inl rfl)
    · rw [unsent]
      exact .inr (.inr ⟨rfl, rfl, _, rfl⟩)
  | finished12 => exact .inr (.inl rfl)
  | _ => exact .inl rfl

/-- A message that is taken does not end the connection. -/
theorem Effect.alive {msg : Bytes} (h : Effect P env msg s true t) (alive : s.phase ≠ .failed) : t.phase ≠ .failed := by
  rcases h.phase P env with same | done | ⟨refused, -⟩
  · exact same.trans_ne alive
  · exact done.trans_ne nofun
  · cases refused

section

variable {msg : Bytes} {ok : Bool} (h : Effect P env msg s ok t)

include h

/-- No message takes the client back to where it has no transport yet. -/
theorem Effect.busy (busy : s.phase ≠ .connecting) : t.phase ≠ .connecting := by
  rcases h.phase P env with same | done | ⟨-, failed, -⟩
  · exact same.trans_ne busy
  · exact done.trans_ne nofun
  · exact failed.trans_ne nofun

/-- A connection that a message has ended has been hung up. -/
theorem Effect.hungUp
    (alive : s.phase ≠ .failed) (failed : t.phase = .failed) : ∃ tcp : Tcp.Tcb, t.tcp = tcp.reset := by
  rcases h.phase P env with same | done | ⟨-, -, reset⟩
  · exact absurd (same.symm.trans failed) alive
  · cases done.symm.trans failed
  · exact reset

/-- A message reads nothing from TCP: what has arrived stays, or all of it is given up. -/
theorem Effect.rx : t.tcp.rx = s.tcp.rx ∨ ∃ tcp : Tcp.Tcb, t.tcp = tcp.reset := by
  cases h with
  | refused t refused => exact .inr refused.hungUp
  | finished v kind keyed mac =>
    obtain ⟨_, _, _, _, rx, sent | unsent⟩ := sendFinished_cases P env (finishing P msg s)
    · rw [sent]
      exact .inl rx
    · rw [unsent]
      exact .inr ⟨_, rfl⟩
  | _ => exact .inl rfl

/-- No message puts octets into the application's buffer. -/
theorem Effect.received : t.rx = s.rx := by
  cases h with
  | refused t refused =>
    obtain ⟨⟨_, _, _, _, _, rfl⟩, -, -⟩ := refused
    rfl
  | finished v kind keyed mac =>
    obtain ⟨_, _, _, _, -, sent | unsent⟩ := sendFinished_cases P env (finishing P msg s)
    · rw [sent]
      rfl
    · rw [unsent]
      rfl
  | _ => rfl

end

theorem decideVersion_phase (msg : Bytes) (s : Tls) : (s.decideVersion msg).phase = s.phase := by
  unfold decideVersion
  split <;> rfl

theorem decideVersion_rx (msg : Bytes) (s : Tls) : (s.decideVersion msg).tcp = s.tcp := by
  unfold decideVersion
  split <;> rfl

theorem appendRx_frame (data : Bytes) (s : Tls) :
    ∃ rx truncated, s.appendRx data = { s with rx := rx, rxTruncated := truncated } := by
  unfold appendRx
  split
  · exact ⟨s.rx, true, rfl⟩
  · exact ⟨_, _, rfl⟩

/-- A step that touches no secret, no stored chain and no octet of the application. -/
structure Quiet (s t : Tls) : Prop where
  frame : ∃ phase error serverSeq serverCipher tcp, t = { s with
    phase := phase, error := error, serverSeq := serverSeq, serverCipher := serverCipher, tcp := tcp }
  phase : t.phase = s.phase ∨ t.phase = .failed ∨ t.phase = .closed ∧ s.phase ≠ .failed
  cipher : t.serverCipher = s.serverCipher ∨ t.serverCipher = true ∧ s.version = 12

theorem Quiet.fail (code : UInt8) (s : Tls) : Quiet s (s.fail code) :=
  ⟨⟨_, _, _, _, _, rfl⟩, .inr (.inl rfl), .inl rfl⟩

theorem Quiet.tcp (tcp : Tcp.Tcb) (s : Tls) : Quiet s { s with tcp := tcp } :=
  ⟨⟨_, _, _, _, _, rfl⟩, .inl rfl, .inl rfl⟩

theorem openRecord_counts (hdr record : Bytes) (s : Tls) :
    ∃ seq, (s.openRecord P hdr record).2 = { s with serverSeq := seq } := by
  unfold openRecord
  split
  · unfold open12
    split
    · exact ⟨s.serverSeq, rfl⟩
    dsimp only
    split
    · split <;> exact ⟨_, rfl⟩
    · exact ⟨_, rfl⟩
  · split
    · dsimp only [open13]
      split
      · exact ⟨s.serverSeq, rfl⟩
      split
      · split <;> exact ⟨_, rfl⟩
      · exact ⟨_, rfl⟩
    · exact ⟨s.serverSeq, rfl⟩

variable {o : Opened} {hdr record : Bytes}

/-- A record of data changes the counter and what the application has got. -/
theorem appended_frame (opened : s.openRecord P hdr record = (some o, t)) :
    ∃ seq rx truncated, t.appendRx o.plain = { s with serverSeq := seq, rx := rx, rxTruncated := truncated } := by
  obtain ⟨seq, counted⟩ := openRecord_counts P hdr record s
  rw [opened] at counted
  subst counted
  exact ⟨seq, appendRx_frame o.plain _⟩

/-- The three ways a record can come: under the TLS 1.2 cipher, under a TLS 1.3 key, or in the
clear. -/
inductive Opens (hdr record : Bytes) (s : Tls) (o : Opened) : Prop where
  | tls12 (c : Seal) (v : s.version = 12) (on : s.serverCipher = true) (kind : o.kind = octet hdr 0)
      (sealed : o.sealed = some c) (key : c.key = s.hs12.serverKey)
      (opened : gcmDecrypt P c.key c.nonce c.aad c.data recordCap = some o.plain)
  | tls13 (c : Seal) (v : s.version ≠ 12) (outer : octet hdr 0 = ctApplicationData)
      (sealed : o.sealed = some c) (installed : s.serverKeys.key ≠ []) (key : c.key = s.serverKeys.key)
      (opened : gcmDecrypt P c.key c.nonce c.aad c.data recordCap = some (o.plain ++ [o.kind]))
  | clear (off : s.version = 12 → s.serverCipher = false) (outer : s.version ≠ 12 → octet hdr 0 ≠ ctApplicationData)
      (same : o = ⟨octet hdr 0, record, none⟩)

theorem open12_opens (v : s.version = 12) (on : s.serverCipher = true)
    (h : s.open12 P hdr record = (some o, t)) : Opens P hdr record s o := by
  unfold open12 at h
  split at h
  · cases h
  dsimp only at h
  split at h
  next plain opened =>
    split at h
    · cases h
      exact .tls12 _ v on rfl rfl rfl opened
    · cases h
  · cases h

theorem open13_opens (v : s.version ≠ 12)
    (outer : octet hdr 0 = ctApplicationData) (h : s.open13 P hdr record = (some o, t)) : Opens P hdr record s o := by
  dsimp only [open13] at h
  split at h
  · cases h
  rename_i installed
  split at h
  next plain opened =>
    split at h
    next kind last =>
      cases h
      refine .tls13 _ v outer rfl (by simpa using installed) rfl ?_
      rw [opened, List.dropLast_append_getLast? kind last]
    · cases h
  · cases h

theorem openRecord_opens (h : s.openRecord P hdr record = (some o, t)) : Opens P hdr record s o := by
  unfold openRecord at h
  split at h
  next under =>
    simp only [Bool.and_eq_true, decide_eq_true_eq] at under
    exact open12_opens P under.1 under.2 h
  rename_i not12
  split at h
  next outer =>
    simp only [Bool.and_eq_true, decide_eq_true_eq] at outer
    exact open13_opens P outer.2 outer.1 h
  rename_i not13
  cases h
  exact .clear (fun v => by simpa [v] using not12) (fun v => by simpa [v] using not13) rfl

end Tls

/-! ## Moves -/

inductive Move : Session → Session → Prop where
  | message (σ : Session) (env : Env) (msg : Bytes) (alive : σ.tls.phase ≠ .failed)
      (busy : σ.tls.phase ≠ .connecting) :
      Move σ (σ.dispatch P env msg).2
  | data (σ : Session) (hdr record : Bytes) (o : Tls.Opened) (s : Tls) (alive : σ.tls.phase ≠ .failed)
      (opened : σ.tls.openRecord P hdr record = (some o, s)) (kind : o.kind = ctApplicationData) :
      Move σ ⟨s.appendRx o.plain, σ.log ++ [.data σ.tls o]⟩
  | flight (σ : Session) (env : Env) (v : σ.tls.version = 12) (due : σ.tls.step12 = 1) :
      Move σ ⟨(({ σ.tls with step12 := 2 }).sendFlight12 P env).2, σ.log⟩
  | hello (σ : Session) (env : Env) (connecting : σ.tls.phase = .connecting) :
      Move σ ⟨({ σ.tls with phase := .handshaking }).sendClientHello P env, σ.log⟩
  | record (σ : Session) (env : Env) (kind : UInt8) (body : Bytes)
      (ours : kind = ctAlert ∨ kind = ctApplicationData) :
      Move σ ⟨(σ.tls.sendRecord P env kind body).2, σ.log⟩
  | quiet (σ : Session) (t : Tls) (quiet : Tls.Quiet σ.tls t) : Move σ ⟨t, σ.log⟩
  | restart (σ : Session) (env : Env) (host : Bytes) (port : UInt16) :
      Move σ ⟨(σ.tls.start env host port).2, []⟩

/-- So many moves. -/
def Moves : Session → Session → Prop := Relation.ReflTransGen (Move P)

theorem Moves.invariant {σ τ : Session} (moves : Moves P σ τ) (inv : Session → Prop)
    (move : ∀ σ τ, inv σ → Move P σ τ → inv τ) (held : inv σ) : inv τ := by
  induction moves with
  | refl => exact held
  | tail _ one ih => exact move _ _ ih one

/-- How records leave a session: if the connection has failed it has been hung up, and there
is no way back to before the handshake. -/
structure Settled (σ : Session) : Prop where
  hungUp : σ.tls.phase = .failed → σ.tls.tcp.peerClosed = false
  busy : σ.tls.phase ≠ .connecting

theorem Settled.of_alive {σ : Session} (alive : σ.tls.phase ≠ .failed) (busy : σ.tls.phase ≠ .connecting) : Settled σ :=
  ⟨fun failed => absurd failed alive, busy⟩

namespace Session

/-- What the loop over the messages of a record keeps. -/
structure Reading (σ : Session) (m : Messages) : Prop where
  moves : Moves P σ m.session
  settled : Settled m.session
  going : m.stop = false → m.session.tls.phase ≠ .failed

theorem dispatch_effect (msg : Bytes) (σ : Session) :
    Tls.Effect P env msg (σ.tls.decideVersion msg) (σ.dispatch P env msg).1 (σ.dispatch P env msg).2.tls :=
  Tls.handleMessage_effect P env msg _

/-- What the loop over the records that have arrived keeps. -/
structure Draining (σ : Session) (d : Drain) : Prop where
  moves : Moves P σ d.session
  settled : Settled d.session
  going : d.stop = false → d.session.tls.phase ≠ .failed

/-- A relation that holds across whatever a tick does, once the transport is there. -/
structure Follows (R : Tls → Tls → Prop) : Prop extends Tls.Flies P env R where
  message (σ : Session) (msg : Bytes) (alive : σ.tls.phase ≠ .failed) : R σ.tls (σ.dispatch P env msg).2.tls
  theirs (s : Tls) (step12 : UInt8) (cipher : Bool) (seq : UInt32) (rx : Bytes) (truncated : Bool) : R s { s with
    step12 := step12, serverCipher := cipher, serverSeq := seq, rx := rx, rxTruncated := truncated }
  ended (s : Tls) (alive : s.phase ≠ .failed) : R s { s with phase := .closed }
  reset (s : Tls) (alive : s.phase ≠ .failed) : R s { s with phase := .closed, tcp := s.tcp.reset }
  tick (s : Tls) : R s (s.tickTcp env)
  release (s : Tls) (n : Nat) : R s { s with tcp := s.tcp.rxRelease env.tcp n }

section

variable {R : Tls → Tls → Prop} (follows : Follows P env R)

include follows

theorem messageStep_reading {σ : Session} {m next : Messages} (reading : Reading P σ m)
    (so : R σ.tls m.session.tls) (h : messageStep P env m = some next) :
    Reading P σ next ∧ R σ.tls next.session.tls := by
  unfold messageStep at h
  split at h
  · cases h
  rename_i more
  simp only [Bool.or_eq_true, not_or, Bool.not_eq_true] at more
  have alive := reading.going more.1
  have busy := reading.settled.busy
  dsimp only at h
  split at h
  · cases h
    exact ⟨⟨reading.moves.tail (.quiet _ _ (.fail 2 _)), ⟨fun _ => rfl, nofun⟩,
      fun stop => by cases stop⟩, follows.trans so (follows.fail 2 _)⟩
  cases h
  refine ⟨?_, follows.trans so (follows.message _ _ alive)⟩
  have effect := dispatch_effect P env (m.rest.take (4 + be24At m.rest 1)) m.session
  refine ⟨reading.moves.tail (.message _ env _ alive busy), ⟨fun failed => ?_, ?_⟩, fun going => ?_⟩
  · obtain ⟨tcp, reset⟩ := effect.hungUp P env ((Tls.decideVersion_phase _ _).trans_ne alive) failed
    rw [reset]
    rfl
  · exact effect.busy P env ((Tls.decideVersion_phase _ _).trans_ne busy)
  · have answer : (m.session.dispatch P env (m.rest.take (4 + be24At m.rest 1))).1 = true := by
      simpa using going
    rw [answer] at effect
    exact effect.alive P env ((Tls.decideVersion_phase _ _).trans_ne alive)

variable {σ : Session} (alive : σ.tls.phase ≠ .failed) (busy : σ.tls.phase ≠ .connecting)

include alive busy

theorem handleHandshake_moves (data : Bytes) : Moves P σ (σ.handleHandshake P env data) ∧
    Settled (σ.handleHandshake P env data) ∧ R σ.tls (σ.handleHandshake P env data).tls := by
  have start : Reading P σ ⟨σ, data, false⟩ := ⟨.refl, .of_alive alive busy, fun _ => alive⟩
  obtain ⟨reading, so⟩ : Reading P σ (whileSome (fun m => m.rest.length) (messageStep P env) ⟨σ, data, false⟩) ∧
      R σ.tls (σ.handleHandshake P env data).tls :=
    whileSome_invariant (fun m => Reading P σ m ∧ R σ.tls m.session.tls)
      (fun _ _ held h => messageStep_reading P env follows held.1 held.2 h) ⟨start, follows.refl _⟩
  exact ⟨reading.moves, reading.settled, so⟩

theorem deliver_moves {o : Tls.Opened} {hdr record : Bytes} {s : Tls}
    (opened : σ.tls.openRecord P hdr record = (some o, s)) : Moves P σ (deliver P env σ.tls o { σ with tls := s }) ∧
      Settled (deliver P env σ.tls o { σ with tls := s }) ∧
        R σ.tls (deliver P env σ.tls o { σ with tls := s }).tls := by
  obtain ⟨seq, counted⟩ := Tls.openRecord_counts P hdr record σ.tls
  rw [opened] at counted
  subst counted
  have counts : Move P σ { σ with tls := { σ.tls with serverSeq := seq } } :=
    .quiet σ _ ⟨⟨_, _, _, _, _, rfl⟩, .inl rfl, .inl rfl⟩
  have counted : R σ.tls { σ.tls with serverSeq := seq } := follows.theirs _ _ _ _ _ _
  unfold deliver
  split
  · obtain ⟨moves, settled, so⟩ :=
      handleHandshake_moves P env follows (σ := { σ with tls := { σ.tls with serverSeq := seq } }) alive busy o.plain
    exact ⟨.head counts moves, settled, follows.trans counted so⟩
  split
  · exact ⟨.single (.quiet σ _ ⟨⟨_, _, _, _, _, rfl⟩, .inr (.inr ⟨rfl, alive⟩), .inl rfl⟩), .of_alive nofun nofun,
      follows.trans counted (follows.reset _ alive)⟩
  split
  next data =>
    refine ⟨.single (.data σ hdr record o _ alive opened data), ?_⟩
    obtain ⟨_, _, appended⟩ := Tls.appendRx_frame o.plain { σ.tls with serverSeq := seq }
    rw [appended]
    exact ⟨.of_alive alive busy, follows.theirs _ _ _ _ _ _⟩
  · exact ⟨.single counts, .of_alive alive busy, counted⟩

theorem handleRecord_moves (hdr record : Bytes) : Moves P σ (σ.handleRecord P env hdr record) ∧
    Settled (σ.handleRecord P env hdr record) ∧ R σ.tls (σ.handleRecord P env hdr record).tls := by
  unfold handleRecord
  split
  next change =>
    simp only [Bool.and_eq_true, decide_eq_true_eq] at change
    exact ⟨.single (.quiet σ _ ⟨⟨_, _, _, _, _, rfl⟩, .inl rfl, .inr ⟨rfl, change.1⟩⟩), .of_alive alive busy,
      follows.theirs _ _ _ _ _ _⟩
  split
  next s opened =>
    obtain ⟨seq, counted⟩ := Tls.openRecord_counts P hdr record σ.tls
    rw [opened] at counted
    subst counted
    have counted : R σ.tls { σ.tls with serverSeq := seq } := follows.theirs _ _ _ _ _ _
    exact ⟨.single (.quiet σ _ ⟨⟨_, _, _, _, _, rfl⟩, .inr (.inl rfl), .inl rfl⟩),
      ⟨fun _ => rfl, nofun⟩, follows.trans counted (follows.fail 7 _)⟩
  next o s opened => exact deliver_moves P env follows alive busy opened

omit alive busy in
theorem drainStep_draining {d next : Drain} (draining : Draining P σ d)
    (so : R σ.tls d.session.tls) (h : drainStep P env d = some next) :
    Draining P σ next ∧ R σ.tls next.session.tls := by
  dsimp only [drainStep] at h
  split at h
  · cases h
  rename_i more
  simp only [Bool.or_eq_true, not_or, Bool.not_eq_true] at more
  have alive := draining.going more.1
  split at h
  · cases h
    exact ⟨⟨draining.moves.tail (.quiet _ _ (.fail 7 _)), ⟨fun _ => rfl, nofun⟩,
      fun stop => by cases stop⟩, follows.trans so (follows.fail 7 _)⟩
  split at h
  · cases h
  cases h
  obtain ⟨moves, settled, handled⟩ := handleRecord_moves P env follows alive draining.settled.busy _ _
  exact ⟨⟨draining.moves.trans moves, settled, fun going => by simpa using going⟩, follows.trans so handled⟩

theorem drainTcp_follows :
    Moves P σ (σ.drainTcp P env) ∧ Settled (σ.drainTcp P env) ∧ R σ.tls (σ.drainTcp P env).tls := by
  have start : Draining P σ ⟨σ, 0, false⟩ := ⟨.refl, .of_alive alive busy, fun _ => alive⟩
  obtain ⟨draining, so⟩ : Draining P σ (whileSome Drain.size (drainStep P env) ⟨σ, 0, false⟩) ∧
      R σ.tls (whileSome Drain.size (drainStep P env) ⟨σ, 0, false⟩).session.tls :=
    whileSome_invariant (fun d => Draining P σ d ∧ R σ.tls d.session.tls)
      (fun _ _ held h => drainStep_draining P env follows held.1 held.2 h) ⟨start, follows.refl _⟩
  dsimp only [drainTcp]
  split
  · exact ⟨draining.moves, draining.settled, so⟩
  rename_i going
  exact ⟨draining.moves.tail (.quiet _ _ (.tcp _ _)),
    .of_alive (draining.going (by simpa using going)) draining.settled.busy, follows.trans so (follows.release _ _)⟩

end

variable (σ : Session)

theorem drainTcp_moves (alive : σ.tls.phase ≠ .failed) (busy : σ.tls.phase ≠ .connecting) :
    Moves P σ (σ.drainTcp P env) ∧ Settled (σ.drainTcp P env) := by
  have all : Follows P env fun _ _ => True := by
    refine ⟨⟨⟨?_, ?_, ?_, ?_, ?_, ?_⟩, ?_⟩, ?_, ?_, ?_, ?_, ?_, ?_⟩
    all_goals intros; trivial
  obtain ⟨moves, settled, -⟩ := drainTcp_follows P env all alive busy
  exact ⟨moves, settled⟩

theorem checkTransport_moves : Moves P σ { σ with tls := σ.tls.checkTransport } := by
  unfold Tls.checkTransport
  split
  · exact .single (.quiet σ _ (.fail 6 _))
  split
  · exact .single (.quiet σ _ (.fail 8 _))
  · exact .refl

theorem afterDrain_moves : Moves P σ { σ with tls := σ.tls.afterDrain P env } := by
  dsimp only [Tls.afterDrain]
  split
  next due =>
    simp only [Bool.and_eq_true, decide_eq_true_eq] at due
    have flight : Move P σ _ := .flight σ env due.1 due.2
    split
    · exact .head flight (checkTransport_moves P _)
    · exact .single flight
  · exact checkTransport_moves P σ

/-- A client that has been hung up has heard no end of the stream. -/
theorem notePeerClosed_moves (settled : Settled σ) : Moves P σ { σ with tls := σ.tls.notePeerClosed } := by
  unfold Tls.notePeerClosed
  split
  next closed =>
    refine .single (.quiet σ _ ⟨⟨_, _, _, _, _, rfl⟩, .inr (.inr ⟨rfl, fun failed => ?_⟩), .inl rfl⟩)
    rw [settled.hungUp failed] at closed
    cases closed
  · exact .refl

theorem tickDns_cases (s : Tls) : (∃ tcp, s.tickDns env = { s with tcp := tcp }) ∨ s.tickDns env = s.fail 1 := by
  unfold Tls.tickDns
  split
  · exact .inl ⟨_, rfl⟩
  · exact .inr rfl
  · exact .inl ⟨s.tcp, rfl⟩

theorem tickConnecting_moves (connecting : σ.tls.phase = .connecting) :
    Moves P σ { σ with tls := σ.tls.tickConnecting P env } := by
  dsimp only [Tls.tickConnecting]
  rcases tickDns_cases env (σ.tls.tickTcp env) with ⟨tcp, waiting⟩ | failed
  · rw [waiting]
    have quiet : Move P σ { σ with tls := { σ.tls with tcp := tcp } } := .quiet σ _ (.tcp tcp _)
    split
    · exact .head quiet (.single (.hello _ env connecting))
    split
    · exact .head quiet (.single (.quiet _ _ (.fail 1 _)))
    · exact .single quiet
  · rw [failed]
    have quiet : Move P σ { σ with tls := (σ.tls.tickTcp env).fail 1 } :=
      .quiet σ _ ⟨⟨_, _, _, _, _, rfl⟩, .inr (.inl rfl), .inl rfl⟩
    -- the transport has just been reset, so nothing else happens in this tick
    rw [if_neg (show ((σ.tls.tickTcp env).fail 1).tcp.state ≠ .established from Tcp.State.noConfusion)]
    split
    · exact .head quiet (.single (.quiet _ _ (.fail 1 _)))
    · exact .single quiet

theorem tick_moves : Moves P σ (σ.tick P env) := by
  unfold tick
  split
  next connecting => exact tickConnecting_moves P env σ connecting
  next handshaking =>
    have tick : Move P σ { σ with tls := σ.tls.tickTcp env } := .quiet σ _ (.tcp _ _)
    have drained := drainTcp_moves P env { σ with tls := σ.tls.tickTcp env }
      (handshaking.trans_ne nofun) (handshaking.trans_ne nofun)
    exact (Relation.ReflTransGen.head tick drained.1).trans (afterDrain_moves P env _)
  next established =>
    have tick : Move P σ { σ with tls := σ.tls.tickTcp env } := .quiet σ _ (.tcp _ _)
    have drained := drainTcp_moves P env { σ with tls := σ.tls.tickTcp env }
      (established.trans_ne nofun) (established.trans_ne nofun)
    exact (Relation.ReflTransGen.head tick drained.1).trans (notePeerClosed_moves P _ drained.2)
  · exact .refl

section

variable {R : Tls → Tls → Prop} (follows : Follows P env R)

include follows

theorem checkTransport_follows (s : Tls) : R s s.checkTransport := by
  unfold Tls.checkTransport
  split
  · exact follows.fail 6 s
  split
  · exact follows.fail 8 s
  · exact follows.refl s

theorem afterDrain_follows (s : Tls) : R s (s.afterDrain P env) := by
  have due : R s { s with step12 := 2 } := follows.theirs _ _ _ _ _ _
  have flown := follows.trans due (follows.toFlies.sendFlight12 P env _)
  dsimp only [Tls.afterDrain]
  split
  · split
    · exact follows.trans flown (checkTransport_follows P env follows _)
    · exact flown
  · exact checkTransport_follows P env follows s

theorem tick_follows (hello : ∀ s : Tls, s.phase = .connecting →
      R s (({ s with phase := .handshaking }).sendClientHello P env)) (σ : Session)
    (unresolved : σ.tls.phase = .connecting → ∀ ip, env.dns ≠ .resolved (some ip)) :
    R σ.tls (σ.tick P env).tls := by
  have ticked := follows.tick σ.tls
  unfold tick
  split
  next connecting =>
    have looked : (σ.tls.tickTcp env).tickDns env = σ.tls.tickTcp env ∨
        (σ.tls.tickTcp env).tickDns env = (σ.tls.tickTcp env).fail 1 := by
      unfold Tls.tickDns
      split
      next ip resolved => exact absurd resolved (unresolved connecting ip)
      · exact .inr rfl
      · exact .inl rfl
    dsimp only [Tls.tickConnecting]
    rcases looked with waiting | failed
    · rw [waiting]
      split
      · exact follows.trans ticked (hello _ connecting)
      split
      · exact follows.trans ticked (follows.fail 1 _)
      · exact ticked
    · rw [failed, if_neg (show ((σ.tls.tickTcp env).fail 1).tcp.state ≠ .established from Tcp.State.noConfusion)]
      have failed := follows.trans ticked (follows.fail 1 _)
      split
      · exact follows.trans failed (follows.fail 1 _)
      · exact failed
  next handshaking =>
    obtain ⟨-, -, drained⟩ := drainTcp_follows P env follows (σ := { σ with tls := σ.tls.tickTcp env })
      (handshaking.trans_ne nofun) (handshaking.trans_ne nofun)
    exact follows.trans (follows.trans ticked drained) (afterDrain_follows P env follows _)
  next established =>
    obtain ⟨-, settled, drained⟩ := drainTcp_follows P env follows (σ := { σ with tls := σ.tls.tickTcp env })
      (established.trans_ne nofun) (established.trans_ne nofun)
    have drained := follows.trans ticked drained
    dsimp only [Tls.notePeerClosed]
    split
    next closed =>
      -- a client that has been hung up has heard no end of the stream
      refine follows.trans drained (follows.ended _ fun failed => ?_)
      rw [settled.hungUp failed] at closed
      cases closed
    · exact drained
  · exact follows.refl _

end

theorem send_moves (data : Bytes) (σ : Session) : Moves P σ { σ with tls := (σ.tls.send P env data).2 } := by
  unfold Tls.send
  split
  · exact .refl
  · exact .single (.record σ env ctApplicationData data (.inr rfl))

theorem step_moves (c : Call) : Moves P σ (σ.step P c) := by
  unfold step
  split
  · exact .single (.restart σ c.env _ _)
  · exact tick_moves P c.env σ
  · exact .single (.quiet σ _ (.tcp _ _))
  next data _ => exact send_moves P c.env data σ
  · have goodbye : Move P σ _ := .record σ c.env ctAlert [1, 0] (.inl rfl)
    exact .head goodbye (.single (.quiet _ _ (.tcp _ _)))

/-- So an invariant of every move is one of every run. -/
theorem after_invariant (inv : Session → Prop) (start : inv {})
    (move : ∀ σ τ, inv σ → Move P σ τ → inv τ) (calls : List Call) : inv (after P calls) := by
  refine run_invariant inv (fun σ c held => ?_) start calls
  exact (step_moves P σ c).invariant P inv move held

end Session

end BarryOS.Crypto
