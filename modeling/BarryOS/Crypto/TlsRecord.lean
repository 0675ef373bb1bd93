import BarryOS.Crypto.Tls12
import BarryOS.Net.Tcp

/-!
# The TLS client: state and sending (crypto/tls.rs)

The statics of the module are the fields of `Tls`, the transport among them. An array with a
length beside it is the octets in use; `transcript` is what has gone into the running hash.
`sealed` records the calls of `gcm_encrypt`; no function reads it back. The trace buffers,
`SUITE` and the serial log are left out.

A record that does not fit the record buffer stops the kernel in some of the places below;
here it is not sent.
-/

namespace BarryOS.Crypto

open Lib Net

def ctChangeCipherSpec : UInt8 := 20
def ctAlert : UInt8 := 21
def ctHandshake : UInt8 := 22
def ctApplicationData : UInt8 := 23

def hsClientHello : UInt8 := 1
def hsServerHello : UInt8 := 2
def hsCertificate : UInt8 := 11
def hsServerKeyExchange : UInt8 := 12
def hsCertificateRequest : UInt8 := 13
def hsServerHelloDone : UInt8 := 14
def hsCertificateVerify : UInt8 := 15
def hsFinished : UInt8 := 20

inductive Phase where
  | idle | connecting | handshaking | established | closed | failed
  deriving DecidableEq, Repr

/-- A traffic key; nothing is installed while the key is empty. -/
structure Keys where
  key : Bytes := []
  iv : Bytes := zeros 12
  deriving DecidableEq

/-- One call of `gcm_encrypt`. -/
structure Sealed where
  key : Bytes
  nonce : Bytes
  aad : Bytes
  plain : Bytes
  deriving DecidableEq

/-- What DNS says during one call. -/
inductive Dns where
  | pending
  | resolved (ip : Option Ip)
  | failed

/-- The answers of the layers below during one call; `random n` is what the n-th draw gives. -/
structure Env where
  tcp : Tcp.Env
  random : Nat → Nat → UInt8
  dns : Dns
  dnsServer : Bool
  dnsStarts : Bool

structure Tls where
  phase : Phase := .idle
  error : UInt8 := 0
  transcript : Bytes := []
  priv : Bytes := zeros 32
  pub : Bytes := zeros 32
  clientHs : Keys := {}
  serverHs : Keys := {}
  clientAp : Keys := {}
  serverAp : Keys := {}
  clientSeq : UInt32 := 0
  serverSeq : UInt32 := 0
  rx : Bytes := []
  rxTruncated : Bool := false
  host : Bytes := []
  port : UInt16 := 443
  clientRandom : Bytes := zeros 32
  version : UInt8 := 0
  step12 : UInt8 := 0
  clientCipher : Bool := false
  serverCipher : Bool := false
  hs12 : Handshake := {}
  chain : Bytes := []
  verified : Bool := false
  haveHs : Bool := false
  hsSecret : Bytes := zeros 32
  cHsSecret : Bytes := zeros 32
  sHsSecret : Bytes := zeros 32
  draws : Nat := 0
  sealed : List Sealed := []
  tcp : Tcp.Tcb := {}

/-- `RX_CAP`. -/
def tlsRxCap : Nat := 256 * 1024

/-- The size of a record buffer. -/
def recordCap : Nat := 16640

/-- The five octets in front of a record. -/
def recordHeader (kind : UInt8) (len : Nat) : Bytes := [kind, 0x03, 0x03] ++ be16 (UInt16.ofNat len)

@[simp] theorem recordHeader_length (kind : UInt8) (len : Nat) : (recordHeader kind len).length = 5 := rfl

/-- The write IV with the sequence number in its last eight octets. -/
def nonceFor (iv : Bytes) (seq : UInt32) : Bytes :=
  iv.take 4 ++ List.zipWith (· ^^^ ·) (iv.drop 4) (be64 seq.toUInt64)

/-- The additional data of a TLS 1.2 record. -/
def aad12 (seq : UInt32) (kind : UInt8) (plainLen : Nat) : Bytes :=
  be64 seq.toUInt64 ++ [kind, 0x03, 0x03] ++ be16 (UInt16.ofNat plainLen)

namespace Tls

variable (P : Primitives) (env : Env)

def established (s : Tls) : Bool := s.phase = .established && s.verified

def fail (code : UInt8) (s : Tls) : Tls :=
  { s with error := code, phase := .failed, tcp := s.tcp.reset }

/-- `fail12`; its reason only reaches the log. -/
def fail12 (s : Tls) : Tls := s.fail 2

/-- The host as the name checks see it. -/
def hostStr (s : Tls) : Bytes := if validUtf8 s.host then s.host else []

/-- The n-th draw from now. -/
def randomBytes (s : Tls) (n : Nat) : Bytes := octets 32 (env.random (s.draws + n))

def transcriptUpdate (msg : Bytes) (s : Tls) : Tls := { s with transcript := s.transcript ++ msg }

def transcriptHash (s : Tls) : Bytes := sha256 P s.transcript

/-- Everything `reset` clears; the host, the port and what TCP keeps stay. -/
def reset (s : Tls) : Tls :=
  { ({} : Tls) with host := s.host, port := s.port, draws := s.draws, tcp := s.tcp.reset }

/-! ## Records out -/

/-- The counter is taken before the call, whatever the call answers. -/
def sealing (call : Sealed) (s : Tls) : Tls :=
  { s with clientSeq := s.clientSeq + 1, sealed := s.sealed ++ [call] }

def plainRecord (kind : UInt8) (body : Bytes) : Option Bytes :=
  if 5 + body.length > recordCap then none else some (recordHeader kind body.length ++ body)

/-- What `send_record12` encrypts: half of the nonce goes on the wire. -/
def call12 (kind : UInt8) (body : Bytes) (s : Tls) : Sealed :=
  ⟨s.hs12.clientKey, s.hs12.clientIv ++ be64 s.clientSeq.toUInt64, aad12 s.clientSeq kind body.length, body⟩

/-- Explicit nonce, ciphertext, tag. -/
def record12 (kind : UInt8) (seq : UInt32) (call : Sealed) : Option Bytes :=
  match gcmEncrypt P call.key call.nonce call.aad call.plain recordCap with
  | none => none
  | some ct =>
    let frag := 8 + call.plain.length + 16
    if 5 + frag > recordCap then none else some (recordHeader kind frag ++ be64 seq.toUInt64 ++ ct)

/-- The keys for a kind of record in 1.3. -/
def clientKeys (kind : UInt8) (s : Tls) : Keys := if kind = ctHandshake then s.clientHs else s.clientAp

/-- What `send_record` encrypts in 1.3: the type is inside, and outside it is application data. -/
def call13 (kind : UInt8) (body : Bytes) (s : Tls) : Sealed :=
  let keys := s.clientKeys kind
  ⟨keys.key, nonceFor keys.iv s.clientSeq, recordHeader ctApplicationData (body.length + 1 + 16), body ++ [kind]⟩

def record13 (call : Sealed) : Option Bytes :=
  match gcmEncrypt P call.key call.nonce call.aad call.plain recordCap with
  | none => none
  | some ct => if 5 + ct.length > recordCap then none else some (call.aad ++ ct)

/-- The octets `send_record12` hands to TCP. -/
def recordOut12 (kind : UInt8) (body : Bytes) (s : Tls) : Option Bytes × Tls :=
  if !s.clientCipher then (plainRecord kind body, s)
  else (record12 P kind s.clientSeq (s.call12 kind body), s.sealing (s.call12 kind body))

/-- The octets `send_record` hands to TCP. In 1.3 a record is sealed as soon as there is a key
for its kind. -/
def recordOut (kind : UInt8) (body : Bytes) (s : Tls) : Option Bytes × Tls :=
  if s.version = 12 then s.recordOut12 P kind body
  else if (s.clientKeys kind).key.isEmpty then (plainRecord kind body, s)
  else (record13 P (s.call13 kind body), s.sealing (s.call13 kind body))

/-- Hand a record to TCP, if there is one. -/
def handOver (out : Option Bytes) (s : Tls) : Bool × Tls :=
  match out with
  | none => (false, s)
  | some octets => ((s.tcp.send env.tcp octets).1, { s with tcp := (s.tcp.send env.tcp octets).2 })

def sendRecord (kind : UInt8) (body : Bytes) (s : Tls) : Bool × Tls :=
  (s.recordOut P kind body).2.handOver env (s.recordOut P kind body).1

/-- Send application data; nothing happens unless the handshake verified. -/
def send (data : Bytes) (s : Tls) : Bool × Tls :=
  if !s.established then (false, s) else s.sendRecord P env ctApplicationData data

/-- Say goodbye: a close_notify, then the transport. -/
def close (s : Tls) : Tls :=
  let s := (s.sendRecord P env ctAlert [1, 0]).2
  { s with tcp := s.tcp.close env.tcp }

/-! ## The ClientHello -/

/-- An extension behind its type and length. -/
def extension (kind : UInt16) (body : Bytes) : Bytes :=
  be16 kind ++ be16 (UInt16.ofNat body.length) ++ body

/-- A list behind its length. -/
def listed (body : Bytes) : Bytes := be16 (UInt16.ofNat body.length) ++ body

def suiteAes128Sha256 : UInt16 := 0x1301
def extServerName : UInt16 := 0x0000
def extSupportedGroups : UInt16 := 0x000a
def extEcPointFormats : UInt16 := 0x000b
def extSignatureAlgorithms : UInt16 := 0x000d
def extAlpn : UInt16 := 0x0010
def extSupportedVersions : UInt16 := 0x002b
def extKeyShare : UInt16 := 0x0033

/-- `"http/1.1"`. -/
def http11 : Bytes := [0x68, 0x74, 0x74, 0x70, 0x2f, 0x31, 0x2e, 0x31]

def helloExtensions (host share : Bytes) : Bytes :=
  extension extServerName
      (be16 (UInt16.ofNat (host.length + 3)) ++ [0] ++ be16 (UInt16.ofNat host.length) ++ host) ++
    extension extSupportedGroups (listed (be16 groupX25519 ++ be16 groupSecp256r1)) ++
    extension extEcPointFormats [1, 0] ++ extension extSignatureAlgorithms (listed
      ([sigEcdsaSha256, sigEcdsaSha384, sigEcdsaSha512, sigRsaPssSha256, sigRsaPssSha384,
        sigRsaPssSha512, sigRsaPkcs1Sha256, sigRsaPkcs1Sha384, sigRsaPkcs1Sha512].flatMap be16)) ++
    extension extAlpn (listed (8 :: http11)) ++ extension extSupportedVersions ([4] ++ be16 0x0304 ++ be16 0x0303) ++
    extension extKeyShare (listed (be16 groupX25519 ++ be16 32 ++ share))

/-- The handshake message, header and all. -/
def clientHello (host random share : Bytes) : Bytes :=
  wrap hsClientHello (be16 0x0303 ++ random ++ [0] ++
    listed (be16 suiteAes128Sha256 ++ be16 suiteEcdheEcdsa ++ be16 suiteEcdheRsa) ++ [1, 0] ++
    listed (helloExtensions host share))

/-- A fresh pair, the message, and the record. -/
def sendClientHello (s : Tls) : Tls :=
  let priv := s.randomBytes env 0
  let random := s.randomBytes env 1
  let pub := publicKey P priv
  let msg := clientHello s.hostStr random pub
  let s := { s with
    priv := priv, pub := pub, clientRandom := random, draws := s.draws + 2,
    transcript := s.transcript ++ msg }
  let sent := s.sendRecord P env ctHandshake msg
  if sent.1 then sent.2 else sent.2.fail 2

end Tls

end BarryOS.Crypto
