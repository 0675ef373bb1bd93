import BarryOS.Crypto.Chain

/-!
# The TLS 1.2 handshake values (crypto/tls12.rs)

`Handshake` is what the server chose and what came out of it. An array with a length beside
it is the octets in use. The reasons for a failure only reach the log and are left out.
-/

namespace BarryOS.Crypto

open Lib

def suiteEcdheEcdsa : UInt16 := 0xC02B
def suiteEcdheRsa : UInt16 := 0xC02F
def groupSecp256r1 : UInt16 := 0x0017
def groupX25519 : UInt16 := 0x001d

structure Handshake where
  suite : UInt16 := 0
  group : UInt16 := 0
  clientRandom : Bytes := zeros 32
  serverRandom : Bytes := zeros 32
  preMaster : Bytes := []
  master : Bytes := zeros 48
  clientKey : Bytes := zeros 16
  serverKey : Bytes := zeros 16
  clientIv : Bytes := zeros 4
  serverIv : Bytes := zeros 4
  ourPrivate : Bytes := []
  ourPublic : Bytes := []
  wantClientCert : Bool := false
  deriving DecidableEq

variable (P : Primitives)

def suiteSupported (suite : UInt16) : Bool := suite = suiteEcdheEcdsa || suite = suiteEcdheRsa

/-- An ephemeral pair for a group, and how many draws it took. -/
def generateKeypair (group : UInt16) (random : Nat → Bytes) : Option (Bytes × Bytes) × Nat :=
  if group = groupX25519 then (some (random 0, publicKey P (random 0)), 1)
  else if group = groupSecp256r1 then
    -- eight draws at most: a scalar out of range is drawn again, not reduced
    match (List.range 8).findSome? fun i => (P.p256Public (random i)).map fun pub => (i, octets 65 pub) with
    | some (i, pub) => (some (random i, pub), i + 1)
    | none => (none, 8)
  else (none, 0)

/-- The parts of a ServerKeyExchange. -/
structure KeyExchange where
  group : UInt16
  point : Bytes
  params : Bytes
  scheme : UInt16
  sig : Bytes

def readKeyExchange (body : Bytes) : Option KeyExchange :=
  if body.length < 5 then none
  -- 3 is named_curve
  else if octet body 0 ≠ 3 then none
  else
    let pointLen := (octet body 3).toNat
    let stop := 4 + pointLen
    if stop + 4 > body.length then none
    else
      let sigLen := (be16At body (stop + 2)).toNat
      if stop + 4 + sigLen > body.length then none
      -- the signed octets have to fit their buffer
      else if 64 + stop > 64 + 256 then none
      else some {
        group := be16At body 1
        point := slice body 4 stop
        params := body.take stop
        scheme := be16At body stop
        sig := slice body (stop + 4) (stop + 4 + sigLen) }

/-- The secret both ends share, once the peer's point is usable. -/
def sharedSecret (group : UInt16) (ours point : Bytes) : Option Bytes :=
  if group = groupX25519 then
    if point.length ≠ 32 then none
    else
      let shared := scalarmult P ours point
      -- zero is what a low-order point gives
      if shared.all (· = 0) then none else some shared
  else if group = groupSecp256r1 then (P.p256Shared ours point).map (octets 32)
  else none

namespace Handshake

def serverHello (body : Bytes) (h : Handshake) : Bool × Handshake :=
  if body.length < 38 then (false, h)
  else if be16At body 0 ≠ 0x0303 then (false, h)
  else
    let h := { h with serverRandom := slice body 2 34 }
    let pos := 35 + (octet body 34).toNat
    if pos + 3 > body.length then (false, h)
    else if octet body (pos + 2) ≠ 0 then (false, h)
    else if !suiteSupported (be16At body pos) then (false, h)
    else (true, { h with suite := be16At body pos })

/-- What the server signs: the two randoms and the parameters. -/
def signedParams (h : Handshake) (params : Bytes) : Bytes := h.clientRandom ++ h.serverRandom ++ params

/-- The server's ephemeral key under the key of its leaf. Also how many draws it took. -/
def serverKeyExchange (body keyAlg curve key : Bytes) (random : Nat → Bytes) (h : Handshake) :
    Bool × Handshake × Nat :=
  match readKeyExchange body with
  | none => (false, h, 0)
  | some x =>
    if !verifyHandshakeSignature P (h.signedParams x.params) x.sig x.scheme keyAlg curve key then
      (false, h, 0)
    else
      let h := { h with group := x.group }
      match generateKeypair P x.group random with
      | (none, n) => (false, h, n)
      | (some (priv, pub), n) =>
        let h := { h with ourPrivate := priv, ourPublic := pub }
        match sharedSecret P x.group priv x.point with
        | none => (false, h, n)
        | some shared => (true, { h with preMaster := shared }, n)

def masterLabel : Bytes := bytesOf "master secret"

def expansionLabel : Bytes := bytesOf "key expansion"

def masterOf (h : Handshake) : Bytes := prf P h.preMaster masterLabel (h.clientRandom ++ h.serverRandom) 48

/-- The master secret and the block of keys from it. -/
def deriveKeys (h : Handshake) : Bool × Handshake :=
  if h.preMaster.isEmpty then (false, h)
  else
    let master := h.masterOf P
    let block := prf P master expansionLabel (h.serverRandom ++ h.clientRandom) 40
    (true, { h with
      master := master
      clientKey := slice block 0 16
      serverKey := slice block 16 32
      clientIv := slice block 32 36
      serverIv := slice block 36 40 })

/-- The twelve octets of a Finished. -/
def finishedVerifyData (h : Handshake) (label transcript : Bytes) : Bytes := prf P h.master label transcript 12

end Handshake

/-- The length of the public value and the value. -/
def clientKeyExchange (pub : Bytes) : Bytes :=
  if 1 + pub.length > 128 then [] else UInt8.ofNat pub.length :: pub

/-- A handshake message behind its header. -/
def wrap (kind : UInt8) (body : Bytes) : Bytes := kind :: be24 body.length ++ body

end BarryOS.Crypto
