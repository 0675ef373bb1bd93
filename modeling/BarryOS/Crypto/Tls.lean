import BarryOS.Crypto.TlsRecord
import BarryOS.Lib.Run

/-!
# The TLS client: handshake, records in, ticks (crypto/tls.rs)

A handler returns `false` where the source stops reading the record it is in. Beside the
state, a `Session` keeps a log of the connection: the handshake messages handed to a
handler, with the state before and after, and the records whose contents went to the
application. The log is a history: no function reads it.
-/

namespace BarryOS.Crypto

open Lib Net

/-! ## ServerHello -/

/-- The search for `supported_versions`. -/
structure VersionScan where
  rest : Bytes
  found : Option UInt16 := none

def versionStep (v : VersionScan) : Option VersionScan :=
  if v.found.isSome || v.rest.length < 4 then none
  else
    let len := (be16At v.rest 2).toNat
    if v.rest.length < 4 + len then some ⟨[], some 0⟩
    else if be16At v.rest 0 = Tls.extSupportedVersions && len ≥ 2 then some ⟨[], some (be16At v.rest 4)⟩
    else some ⟨v.rest.drop (4 + len), none⟩

/-- Which handshake a ServerHello announces; 0 when it does not say. -/
def serverHelloVersion (body : Bytes) : UInt16 :=
  if body.length < 38 then 0
  else
    let pos := 35 + (octet body 34).toNat
    if pos + 3 > body.length then 0
    else if pos + 5 > body.length then 0
    else (whileSome (fun v => v.rest.length) versionStep ⟨body.drop (pos + 5), none⟩).found.getD 0

/-- The extensions of a 1.3 ServerHello: the key share, or a refusal. -/
structure HelloScan where
  rest : Bytes
  share : Option Bytes := none
  refused : Bool := false

def helloStep (h : HelloScan) : Option HelloScan :=
  if h.refused || h.rest.length < 4 then none
  else
    let kind := be16At h.rest 0
    let len := (be16At h.rest 2).toNat
    if h.rest.length < 4 + len then some { h with rest := [], refused := true }
    else
      let ed := slice h.rest 4 (4 + len)
      let rest := h.rest.drop (4 + len)
      if kind = Tls.extSupportedVersions && len = 2 then
        if be16At ed 0 ≠ 0x0304 then some { h with rest := [], refused := true }
        else some { h with rest }
      else if kind = Tls.extKeyShare && len ≥ 36 && be16At ed 0 = groupX25519 && be16At ed 2 = 32 then
        some { h with rest, share := some (slice ed 4 36) }
      else some { h with rest }

/-- The server's share, or the code of the failure. -/
def readServerHello (body : Bytes) : Except UInt8 Bytes :=
  if body.length < 38 then .error 2
  else if be16At body 0 ≠ 0x0303 then .error 2
  else
    let pos := 35 + (octet body 34).toNat
    if pos + 3 > body.length then .error 2
    else if octet body (pos + 2) ≠ 0 then .error 2
    else if be16At body pos ≠ Tls.suiteAes128Sha256 then .error 3
    else if pos + 5 > body.length then .error 2
    else
      let h := whileSome (fun h => h.rest.length) helloStep ⟨body.drop (pos + 5), none, false⟩
      if h.refused then .error 2
      else
        match h.share with
        | none => .error 2
        | some share => .ok share

/-! ## The key schedule -/

def labelDerived : Bytes := bytesOf "derived"
def labelClientHs : Bytes := bytesOf "c hs traffic"
def labelServerHs : Bytes := bytesOf "s hs traffic"
def labelClientAp : Bytes := bytesOf "c ap traffic"
def labelServerAp : Bytes := bytesOf "s ap traffic"
def labelFinished : Bytes := bytesOf "finished"
def labelKey : Bytes := bytesOf "key"
def labelIv : Bytes := bytesOf "iv"
def labelClientFinished : Bytes := bytesOf "client finished"
def labelServerFinished : Bytes := bytesOf "server finished"
def certVerifyContext : Bytes := bytesOf "TLS 1.3, server CertificateVerify"

section Schedule

variable (P : Primitives)

/-- Key and IV from a traffic secret. -/
def makeKeys (secret : Bytes) : Keys := ⟨expandLabel P secret labelKey [] 16, expandLabel P secret labelIv [] 12⟩

/-- There is no PSK, so the early secret is `extract` of zeros. -/
def handshakeSecret (shared : Bytes) : Bytes :=
  extract P (deriveSecret P (extract P [] (zeros 32)) labelDerived (sha256 P [])) shared

def masterSecret (hs : Bytes) : Bytes :=
  extract P (deriveSecret P hs labelDerived (sha256 P [])) (zeros 32)

/-- The MAC of a Finished under a handshake traffic secret. -/
def finishedMac (secret transcriptHash : Bytes) : Bytes :=
  hmac P (expandLabel P secret labelFinished [] 32) transcriptHash

end Schedule

/-- What a CertificateVerify signature covers. -/
def certificateVerifyInput (transcriptHash : Bytes) : Bytes :=
  List.replicate 64 0x20 ++ certVerifyContext ++ [0] ++ transcriptHash

namespace Tls

variable (P : Primitives) (env : Env)

/-! ## TLS 1.3 handlers -/

/-- Fresh handshake keys, and with them fresh sequence numbers. -/
def installHandshakeKeys (shared : Bytes) (s : Tls) : Tls :=
  let hs := handshakeSecret P shared
  let th := s.transcriptHash P
  let cHs := deriveSecret P hs labelClientHs th
  let sHs := deriveSecret P hs labelServerHs th
  { s with
    hsSecret := hs, cHsSecret := cHs, sHsSecret := sHs,
    clientHs := makeKeys P cHs, serverHs := makeKeys P sHs,
    clientSeq := 0, serverSeq := 0, haveHs := true }

def handleServerHello (body : Bytes) (s : Tls) : Bool × Tls :=
  match readServerHello body with
  | .error code => (false, s.fail code)
  | .ok share =>
    let shared := scalarmult P s.priv share
    -- zero is what a low-order point gives
    if shared.all (· = 0) then (false, s.fail 4) else (true, s.installHandshakeKeys P shared)

/-- The chain of a Certificate message, kept for the checks that come later. -/
def handleCertificate (body : Bytes) (withContext : Bool) (s : Tls) : Bool × Tls :=
  match certificateList body withContext with
  | none => (false, s.fail 4)
  | some chain => (true, { s with chain := chain })

def chainAndNameOk (s : Tls) : Bool := Crypto.chainAndNameOk P s.chain s.hostStr

def handleCertificateVerify (body : Bytes) (s : Tls) : Bool × Tls :=
  let sl := (be16At body 2).toNat
  if body.length < 4 || body.length < 4 + sl then (false, s.fail 5)
  else if verifyWithChain P s.chain s.hostStr (certificateVerifyInput (s.transcriptHash P))
      (slice body 4 (4 + sl)) (be16At body 0) then (true, s)
  else (false, s.fail 5)

/-- The application keys, over the transcript that has the server's Finished in it. -/
def installApplicationKeys (s : Tls) : Tls :=
  let master := masterSecret P s.hsSecret
  let th := s.transcriptHash P
  { s with
    verified := true,
    clientAp := makeKeys P (deriveSecret P master labelClientAp th),
    serverAp := makeKeys P (deriveSecret P master labelServerAp th),
    serverSeq := 0 }

/-- Our Finished. -/
def clientFinished (s : Tls) : Bytes := wrap hsFinished (finishedMac P s.cHsSecret (s.transcriptHash P))

/-- It goes out under the handshake keys; the counter starts over behind it. -/
def sendFinished (s : Tls) : Bool × Tls :=
  let msg := s.clientFinished P
  let sent := (s.transcriptUpdate msg).sendRecord P env ctHandshake msg
  if !sent.1 then (false, sent.2.fail 6)
  else (true, { sent.2 with clientSeq := 0, phase := .established })

def handleFinished (msg : Bytes) (s : Tls) : Bool × Tls :=
  let body := msg.drop 4
  if body.length ≠ 32 then (false, s.fail 6)
  else if !s.haveHs then (false, s.fail 6)
  else if !constantTimeEq (finishedMac P s.sHsSecret (s.transcriptHash P)) body then (false, s.fail 6)
  else ((s.transcriptUpdate msg).installApplicationKeys P).sendFinished P env

/-- CertificateVerify is added behind its check, and Finished inside its own. -/
def handleHandshake13 (msg : Bytes) (s : Tls) : Bool × Tls :=
  let kind := octet msg 0
  let body := msg.drop 4
  if kind = hsServerHello then (s.transcriptUpdate msg).handleServerHello P body
  else if kind = hsCertificate then (s.transcriptUpdate msg).handleCertificate body true
  else if kind = hsCertificateVerify then
    let checked := s.handleCertificateVerify P body
    if checked.1 then (true, checked.2.transcriptUpdate msg) else checked
  else if kind = hsFinished then s.handleFinished P env msg
  else (true, s.transcriptUpdate msg)

/-! ## TLS 1.2 handlers -/

def serverHello12 (body : Bytes) (s : Tls) : Bool × Tls :=
  let r := Handshake.serverHello body { s.hs12 with clientRandom := s.clientRandom }
  let s := { s with hs12 := r.2 }
  if r.1 then (true, s) else (false, s.fail12)

/-- The one failure that does not go through `fail`: the chain or the name. -/
def certificate12 (body : Bytes) (s : Tls) : Bool × Tls :=
  let r := s.handleCertificate body false
  if !r.1 then r else (r.2.chainAndNameOk P, r.2)

def serverKeyExchange12 (body : Bytes) (s : Tls) : Bool × Tls :=
  match X509.parse (leafDer s.chain) with
  | none => (false, s.fail12)
  | some leaf =>
    let r := s.hs12.serverKeyExchange P body leaf.keyAlg leaf.curve leaf.key (s.randomBytes env)
    let s := { s with hs12 := r.2.1, draws := s.draws + r.2.2 }
    if r.1 then (true, s) else (false, s.fail12)

def serverHelloDone12 (s : Tls) : Bool × Tls :=
  let r := s.hs12.deriveKeys P
  let s := { s with hs12 := r.2 }
  if r.1 then (true, { s with step12 := 1 }) else (false, s.fail12)

def serverFinished12 (msg : Bytes) (s : Tls) : Bool × Tls :=
  if msg.length ≠ 16 then (false, s.fail12)
  else if !constantTimeEq (s.hs12.finishedVerifyData P labelServerFinished (s.transcriptHash P))
      (slice msg 4 16) then (false, s.fail12)
  else (true, { s.transcriptUpdate msg with step12 := 3, verified := true, phase := .established })

def handleHandshake12 (msg : Bytes) (s : Tls) : Bool × Tls :=
  let kind := octet msg 0
  let body := msg.drop 4
  if kind = hsServerHello then (s.transcriptUpdate msg).serverHello12 body
  else if kind = hsCertificate then (s.transcriptUpdate msg).certificate12 P body
  else if kind = hsServerKeyExchange then (s.transcriptUpdate msg).serverKeyExchange12 P env body
  else if kind = hsCertificateRequest then
    (true, { s.transcriptUpdate msg with hs12 := { s.hs12 with wantClientCert := true } })
  else if kind = hsServerHelloDone then (s.transcriptUpdate msg).serverHelloDone12 P
  else if kind = hsFinished then s.serverFinished12 P msg
  else (true, s.transcriptUpdate msg)

/-- Send what goes into the transcript first. -/
def sendHandshake12 (msg : Bytes) (s : Tls) : Bool × Tls :=
  let sent := (s.transcriptUpdate msg).sendRecord P env ctHandshake msg
  if sent.1 then sent else (false, sent.2.fail12)

/-- We have no certificate, and say so when asked. -/
def sendEmptyCertificate12 (s : Tls) : Bool × Tls :=
  if s.hs12.wantClientCert then s.sendHandshake12 P env [hsCertificate, 0, 0, 3, 0, 0, 0] else (true, s)

def sendKeyExchange12 (s : Tls) : Bool × Tls :=
  let body := clientKeyExchange s.hs12.ourPublic
  if body.isEmpty then (false, s.fail12) else s.sendHandshake12 P env (wrap 16 body)

/-- ChangeCipherSpec puts the cipher in force and starts the counter over. -/
def sendChangeCipherSpec12 (s : Tls) : Bool × Tls :=
  let sent := s.sendRecord P env ctChangeCipherSpec [1]
  if sent.1 then (true, { sent.2 with clientCipher := true, clientSeq := 0 })
  else (false, sent.2.fail12)

def sendFinished12 (s : Tls) : Bool × Tls :=
  let msg := wrap hsFinished (s.hs12.finishedVerifyData P labelClientFinished (s.transcriptHash P))
  let sent := s.sendRecord P env ctHandshake msg
  if sent.1 then (true, sent.2.transcriptUpdate msg) else (false, sent.2.fail12)

/-- One part of the flight after the other, up to the first that fails. -/
def andThen (a b : Tls → Bool × Tls) (s : Tls) : Bool × Tls :=
  let r := a s
  if r.1 then b r.2 else r

/-- The client's whole flight. -/
def sendFlight12 : Tls → Bool × Tls :=
  andThen (sendEmptyCertificate12 P env) <| andThen (sendKeyExchange12 P env) <|
    andThen (sendChangeCipherSpec12 P env) (sendFinished12 P env)

/-! ## Messages -/

/-- The ServerHello decides between the two handshakes, once. -/
def decideVersion (msg : Bytes) (s : Tls) : Tls :=
  if octet msg 0 = hsServerHello && s.version = 0 then
    { s with version := if serverHelloVersion (msg.drop 4) = 0x0304 then 13 else 12 }
  else s

def handleMessage (msg : Bytes) (s : Tls) : Bool × Tls :=
  if s.version = 12 then s.handleHandshake12 P env msg else s.handleHandshake13 P env msg

/-! ## Records in -/

def appendRx (data : Bytes) (s : Tls) : Tls :=
  if s.rx.length ≥ tlsRxCap then { s with rxTruncated := true }
  else
    let n := min data.length (tlsRxCap - s.rx.length)
    { s with rx := s.rx ++ data.take n, rxTruncated := s.rxTruncated || n < data.length }

/-- The parameters of a `gcm_decrypt` that gave back `plain`. -/
structure Seal where
  key : Bytes
  nonce : Bytes
  aad : Bytes
  data : Bytes

/-- A record as it reaches its handler; nothing sealed a record that came in the clear. -/
structure Opened where
  kind : UInt8
  plain : Bytes
  sealed : Option Seal

/-- A TLS 1.2 record under the cipher: explicit nonce, ciphertext, tag. -/
def open12 (hdr record : Bytes) (s : Tls) : Option Opened × Tls :=
  if record.length < 24 then (none, s)
  else
    let kind := octet hdr 0
    let aad := aad12 s.serverSeq kind (record.length - 24)
    let nonce := s.hs12.serverIv ++ record.take 8
    let s' := { s with serverSeq := s.serverSeq + 1 }
    match gcmDecrypt P s.hs12.serverKey nonce aad (record.drop 8) recordCap with
    | some plain =>
      if plain.length = record.length - 24 then
        (some ⟨kind, plain, some ⟨s.hs12.serverKey, nonce, aad, record.drop 8⟩⟩, s')
      else (none, s')
    | none => (none, s')

/-- The keys a TLS 1.3 record is opened with. -/
def serverKeys (s : Tls) : Keys :=
  if !s.established && !s.serverHs.key.isEmpty then s.serverHs else s.serverAp

/-- A TLS 1.3 record typed application data; its own type is the last octet inside. -/
def open13 (hdr record : Bytes) (s : Tls) : Option Opened × Tls :=
  let keys := s.serverKeys
  if keys.key.isEmpty then (none, s)
  else
    let nonce := nonceFor keys.iv s.serverSeq
    let s' := { s with serverSeq := s.serverSeq + 1 }
    match gcmDecrypt P keys.key nonce hdr record recordCap with
    | some plain =>
      match plain.getLast? with
      | some kind => (some ⟨kind, plain.dropLast, some ⟨keys.key, nonce, hdr, record⟩⟩, s')
      | none => (none, s')
    | none => (none, s')

def openRecord (hdr record : Bytes) (s : Tls) : Option Opened × Tls :=
  if s.version = 12 && s.serverCipher then s.open12 P hdr record
  else if octet hdr 0 = ctApplicationData && s.version ≠ 12 then s.open13 P hdr record
  else (some ⟨octet hdr 0, record, none⟩, s)

end Tls

/-! ## Sessions -/

/-- One thing the connection took in. -/
inductive Entry where
  /-- A handshake message, the state its handler ran from, what it answered and left. -/
  | message (before : Tls) (msg : Bytes) (ok : Bool) (after : Tls)
  /-- A record of application data and the state it was opened in. -/
  | data (before : Tls) (record : Tls.Opened)

structure Session where
  tls : Tls := {}
  log : List Entry := []

namespace Session

variable (P : Primitives) (env : Env)

/-- One message of a handshake record, to its handler. -/
def dispatch (msg : Bytes) (σ : Session) : Bool × Session :=
  let s := σ.tls.decideVersion msg
  let r := s.handleMessage P env msg
  (r.1, ⟨r.2, σ.log ++ [.message s msg r.1 r.2]⟩)

/-- The loop of `handle_handshake`. -/
structure Messages where
  session : Session
  rest : Bytes
  stop : Bool := false

def messageStep (m : Messages) : Option Messages :=
  if m.stop || m.rest.length < 4 then none
  else
    let len := be24At m.rest 1
    if m.rest.length < 4 + len then
      some ⟨{ m.session with tls := m.session.tls.fail 2 }, [], true⟩
    else
      let r := m.session.dispatch P env (m.rest.take (4 + len))
      some ⟨r.2, m.rest.drop (4 + len), !r.1⟩

/-- The messages of one record. -/
def handleHandshake (data : Bytes) (σ : Session) : Session :=
  (whileSome (fun m => m.rest.length) (messageStep P env) ⟨σ, data, false⟩).session

/-- An opened record, to the handler of its type. -/
def deliver (before : Tls) (o : Tls.Opened) (σ : Session) : Session :=
  if o.kind = ctHandshake then σ.handleHandshake P env o.plain
  else if o.kind = ctAlert then
    { σ with tls := { σ.tls with phase := .closed, tcp := σ.tls.tcp.reset } }
  else if o.kind = ctApplicationData then
    ⟨σ.tls.appendRx o.plain, σ.log ++ [.data before o]⟩
  else σ

/-- One record: five octets of header, and what they announce. -/
def handleRecord (hdr record : Bytes) (σ : Session) : Session :=
  if σ.tls.version = 12 && octet hdr 0 = ctChangeCipherSpec then
    { σ with tls := { σ.tls with serverCipher := true, serverSeq := 0 } }
  else
    match σ.tls.openRecord P hdr record with
    | (none, s) => { σ with tls := s.fail 7 }
    | (some o, s) => deliver P env σ.tls o { σ with tls := s }

/-- The loop of `drain_tcp`; `stop` is its early return. -/
structure Drain where
  session : Session
  consumed : Nat := 0
  stop : Bool := false

def Drain.size (d : Drain) : Nat :=
  (if d.stop then 0 else 1) + (d.session.tls.tcp.rxLen - d.consumed)

def drainStep (d : Drain) : Option Drain :=
  let tcp := d.session.tls.tcp
  let hdr := tcp.rxReadAt d.consumed 5
  if d.stop || hdr.length < 5 then none
  else
    let len := (be16At hdr 3).toNat
    if len = 0 || len > recordCap then
      some { d with session := { d.session with tls := d.session.tls.fail 7 }, stop := true }
    -- the rest has not arrived yet
    else if tcp.rxLen < d.consumed + 5 + len then none
    else
      let σ := d.session.handleRecord P env hdr (tcp.rxReadAt (d.consumed + 5) len)
      some ⟨σ, d.consumed + 5 + len, σ.tls.phase = .failed⟩

/-- Take every record that has arrived whole, and hand the octets back to TCP. -/
def drainTcp (σ : Session) : Session :=
  let d := whileSome Drain.size (drainStep P env) ⟨σ, 0, false⟩
  if d.stop then d.session
  else { d.session with
    tls := { d.session.tls with tcp := d.session.tls.tcp.rxRelease env.tcp d.consumed } }

end Session

/-! ## Ticks -/

namespace Tls

variable (P : Primitives) (env : Env)

def tickTcp (s : Tls) : Tls := { s with tcp := s.tcp.tick env.tcp }

/-- What the lookup has come to. -/
def tickDns (s : Tls) : Tls :=
  match env.dns with
  | .resolved (some ip) => { s with tcp := (s.tcp.connect env.tcp ip s.port).2 }
  | .failed => s.fail 1
  | _ => s

def tickConnecting (s : Tls) : Tls :=
  let s := (s.tickTcp env).tickDns env
  if s.tcp.state = .established then ({ s with phase := .handshaking }).sendClientHello P env
  else if s.tcp.state = .failed then s.fail 1
  else s

/-- The end of a handshaking tick: has the transport gone? -/
def checkTransport (s : Tls) : Tls :=
  if s.tcp.state = .failed then s.fail 6
  else if !s.established && (s.tcp.state = .closed || s.tcp.peerClosed) then s.fail 8
  else s

/-- Behind the records: our TLS 1.2 flight, once ServerHelloDone has been read. -/
def afterDrain (s : Tls) : Tls :=
  if s.version = 12 && s.step12 = 1 then
    let r := ({ s with step12 := 2 }).sendFlight12 P env
    if r.1 then r.2.checkTransport else r.2
  else s.checkTransport

def notePeerClosed (s : Tls) : Tls := if s.tcp.peerClosed then { s with phase := .closed } else s

/-- `arp::parse_ip`. -/
def parseIp (host : Bytes) : Option Ip :=
  let rec go : Bytes → List UInt8 → Nat → Nat → Option Ip
    | [], done, cur, digits =>
      match digits, done with
      | _ + 1, [a, b, c] => some ⟨a, b, c, UInt8.ofNat cur⟩
      | _, _ => none
    | ch :: rest, done, cur, digits =>
      if 0x30 ≤ ch && ch ≤ 0x39 then
        let cur := cur * 10 + (ch - 0x30).toNat
        if cur > 255 || digits + 1 > 3 then none else go rest done cur (digits + 1)
      else if ch = 0x2E then
        if digits = 0 || done.length ≥ 3 then none else go rest (done ++ [UInt8.ofNat cur]) 0 0
      else none
  go host [] 0 0

/-- Begin a connection. -/
def start (host : Bytes) (port : UInt16) (s : Tls) : Bool × Tls :=
  let s := { s.reset with host := host.take 128, port := port }
  match parseIp host with
  | some ip => (true, { s with phase := .connecting, tcp := (s.tcp.connect env.tcp ip port).2 })
  | none =>
    if !env.dnsServer then (false, { s with error := 1, phase := .failed })
    else if !env.dnsStarts then (false, { s with error := 1, phase := .failed })
    else (true, { s with phase := .connecting })

end Tls

/-- Everything that can happen to the client from outside. `transport` is TCP's own doing,
the arrival of a segment above all. -/
inductive Op where
  | start (host : Bytes) (port : UInt16)
  | tick
  | transport (op : Tcp.Op)
  | send (data : Bytes)
  | close

/-- One call, with what the layers below answer while it runs. -/
structure Call where
  env : Env
  op : Op

namespace Session

variable (P : Primitives)

def tick (env : Env) (σ : Session) : Session :=
  match σ.tls.phase with
  | .connecting => { σ with tls := σ.tls.tickConnecting P env }
  | .handshaking =>
    let σ := drainTcp P env { σ with tls := σ.tls.tickTcp env }
    { σ with tls := σ.tls.afterDrain P env }
  | .established =>
    let σ := drainTcp P env { σ with tls := σ.tls.tickTcp env }
    { σ with tls := σ.tls.notePeerClosed }
  | _ => σ

/-- A new connection starts a new log. -/
def step (σ : Session) (c : Call) : Session :=
  match c.op with
  | .start host port => ⟨(σ.tls.start c.env host port).2, []⟩
  | .tick => σ.tick P c.env
  | .transport op => { σ with tls := { σ.tls with tcp := σ.tls.tcp.step ⟨c.env.tcp, op⟩ } }
  | .send data => { σ with tls := (σ.tls.send P c.env data).2 }
  | .close => { σ with tls := σ.tls.close P c.env }

/-- The session after a list of calls, from a freshly booted client. -/
def after (calls : List Call) : Session := run (step P) {} calls

end Session

end BarryOS.Crypto
