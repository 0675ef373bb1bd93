import BarryOS.Crypto.X509

/-!
# The trust store and the server's chain (crypto/trust.rs, crypto/tls.rs)

`CHAIN[..CHAIN_LEN]` is an octet string: every certificate behind its length in four
octets. `certificateList` builds it from a Certificate message, and three loops take it
apart again: `leafDer`, the walk of `verifyWithChain` and the index of `chainTrusted`.
-/

namespace BarryOS.Crypto

open Lib Der X509

variable (P : Primitives)

/-! ## The trust store -/

/-- The fields of a stored SubjectPublicKeyInfo that an issuer has to supply. -/
def spkiParts (spki : Bytes) : Option (Bytes × Bytes × Bytes) :=
  match parseOne spki with
  | none => none
  | some s => if s.tag ≠ tagSequence then none else spkiFields s.body

/-- For RSA the two INTEGERs are compared, otherwise the key as it stands. -/
def sameKey (keyAlg stored key : Bytes) : Bool :=
  if keyAlg = oidRsa then
    match parseOne stored, parseOne key with
    | some a, some b =>
      match twoIntegers a.body, twoIntegers b.body with
      | some (an, ae), some (bn, be) => intBytes an = intBytes bn && intBytes ae = intBytes be
      | _, _ => false
    | _, _ => false
  else stored = key

def keyMatches (spki keyAlg curve key : Bytes) : Bool :=
  match spkiParts spki with
  | none => false
  | some (storedAlg, storedCurve, storedKey) =>
    storedAlg = keyAlg && storedCurve = curve && sameKey keyAlg storedKey key

/-- Two Names without their outer header, which has more than one form. -/
def nameEq (a b : Bytes) : Bool :=
  match parseOne a, parseOne b with
  | some x, some y => x.tag = tagSequence && y.tag = tagSequence && x.body = y.body
  | _, _ => false

/-- Is `cert` a stored root, by name and by key? -/
def isTrusted (cert : Cert) : Bool :=
  P.roots.any fun e => nameEq e.subject cert.subject && keyMatches e.spki cert.keyAlg cert.curve cert.key

/-- The certificate that stands for a stored root: its name and its key. -/
def rootCert (e : Root) : Option Cert :=
  (spkiParts e.spki).map fun (alg, curve, key) =>
    { subject := e.subject, keyAlg := alg, curve, key, isCa := true }

/-- Does `cert` carry a signature by a stored root of its issuer's name? -/
def signedByStoredRoot (cert : Cert) : Bool :=
  P.roots.any fun e =>
    nameEq e.subject cert.issuer &&
      match rootCert e with
      | none => false
      | some issuer => verifySignedBy P cert issuer

/-! ## Storing the chain -/

def chainCap : Nat := 8 * 1024

/-- The loop of `handle_certificate`: the list not read yet, `CHAIN[..out]` and the count. -/
structure CertList where
  rest : Bytes
  out : Bytes := []
  count : Nat := 0
  failed : Bool := false

/-- Behind an entry, TLS 1.3 has extensions; TLS 1.2 has nothing. -/
def skipEntryExtensions (withContext : Bool) (rest : Bytes) : Bytes :=
  if withContext && rest.length ≥ 2 then rest.drop (2 + (be16At rest 0).toNat) else rest

def certStep (withContext : Bool) (l : CertList) : Option CertList :=
  if l.failed || l.rest.length < 3 then none
  else
    let cl := be24At l.rest 0
    let rest := l.rest.drop 3
    if rest.length < cl || l.out.length + 4 + cl > chainCap then
      some { l with rest := [], failed := true }
    else some {
      rest := skipEntryExtensions withContext (rest.drop cl)
      out := l.out ++ be32 (UInt32.ofNat cl) ++ rest.take cl
      count := l.count + 1 }

/-- The octets of the list, or nothing when its header does not fit. -/
def listOctets (body : Bytes) (withContext : Bool) : Option Bytes :=
  let start := if withContext then 1 + (octet body 0).toNat else 0
  if body.isEmpty || start + 3 > body.length then none
  else
    let len := be24At body start
    if start + 3 + len > body.length then none else some (slice body (start + 3) (start + 3 + len))

/-- What a Certificate message puts in `CHAIN`; nothing when the message is refused. -/
def certificateList (body : Bytes) (withContext : Bool) : Option Bytes :=
  match listOctets body withContext with
  | none => none
  | some list =>
    let l := whileSome (fun l => l.rest.length) (certStep withContext) ⟨list, [], 0, false⟩
    if l.failed || l.count = 0 then none else some l.out

/-! ## Reading it back -/

/-- The end-entity certificate as it arrived. -/
def leafDer (chain : Bytes) : Bytes :=
  if chain.length < 4 then []
  else
    let cl := (be32At chain 0).toNat
    if 4 + cl > chain.length then [] else slice chain 4 (4 + cl)

/-- The walk of `verify_with_chain`: the first certificate that parses. -/
structure Walk where
  rest : Bytes
  leaf : Option Cert := none
  truncated : Bool := false

def walkStep (w : Walk) : Option Walk :=
  if w.truncated || w.rest.length < 4 then none
  else
    let cl := (be32At w.rest 0).toNat
    let rest := w.rest.drop 4
    if rest.length < cl then some { w with rest := [], truncated := true }
    else some {
      rest := rest.drop cl
      leaf := if w.leaf.isNone then X509.parse (rest.take cl) else w.leaf }

def walk (chain : Bytes) : Walk := whileSome (fun w => w.rest.length) walkStep ⟨chain, none, false⟩

/-- The certificates `chain_trusted` looks at. -/
def maxDepth : Nat := 8

structure Indexed where
  rest : Bytes
  ders : List Bytes := []

def indexStep (x : Indexed) : Option Indexed :=
  if x.rest.length < 4 || x.ders.length ≥ maxDepth then none
  else
    let cl := (be32At x.rest 0).toNat
    let rest := x.rest.drop 4
    if rest.length < cl then none else some ⟨rest.drop cl, x.ders ++ [rest.take cl]⟩

def indexed (chain : Bytes) : List Bytes :=
  (whileSome (fun x => x.rest.length) indexStep ⟨chain, []⟩).ders

/-! ## The decision -/

/-- One link: the child names the issuer, is signed by it, and the issuer may issue. -/
def linkOk (child issuer : Bytes) : Bool :=
  match X509.parse child, X509.parse issuer with
  | some child, some issuer =>
    sameName child.issuer issuer.subject && verifySignedBy P child issuer && issuer.isCa
  | _, _ => false

/-- Each certificate is signed by the next one along. -/
def linksOk : List Bytes → Bool
  | child :: issuer :: rest => linkOk P child issuer && linksOk (issuer :: rest)
  | _ => true

/-- Where the chain stops is a stored root, or is signed by one. -/
def topOk (top : Cert) : Bool := (isTrusted P top && top.isCa) || signedByStoredRoot P top

def chainTrusted (chain : Bytes) : Bool :=
  let ders := indexed chain
  match ders.getLast? with
  | none => false
  | some last =>
    linksOk P ders &&
      match X509.parse last with
      | none => false
      | some top => topOk P top

/-- Is the chain rooted in the store, and does its leaf name the host? -/
def chainAndNameOk (chain host : Bytes) : Bool :=
  match X509.parse (leafDer chain) with
  | none => false
  | some leaf => chainTrusted P chain && hostnameMatches leaf host

/-! ## Signatures by the leaf -/

def sigEcdsaSha256 : UInt16 := 0x0403
def sigEcdsaSha384 : UInt16 := 0x0503
def sigEcdsaSha512 : UInt16 := 0x0603
def sigRsaPssSha256 : UInt16 := 0x0804
def sigRsaPssSha384 : UInt16 := 0x0805
def sigRsaPssSha512 : UInt16 := 0x0806
def sigRsaPkcs1Sha256 : UInt16 := 0x0401
def sigRsaPkcs1Sha384 : UInt16 := 0x0501
def sigRsaPkcs1Sha512 : UInt16 := 0x0601

def isEcdsa (scheme : UInt16) : Bool :=
  scheme = sigEcdsaSha256 || scheme = sigEcdsaSha384 || scheme = sigEcdsaSha512

def isPkcs1 (scheme : UInt16) : Bool :=
  scheme = sigRsaPkcs1Sha256 || scheme = sigRsaPkcs1Sha384 || scheme = sigRsaPkcs1Sha512

def schemeHash (scheme : UInt16) : Option HashId :=
  if scheme = sigEcdsaSha256 || scheme = sigRsaPssSha256 || scheme = sigRsaPkcs1Sha256 then some .sha256
  else if scheme = sigEcdsaSha384 || scheme = sigRsaPssSha384 || scheme = sigRsaPkcs1Sha384 then
    some .sha384
  else if scheme = sigEcdsaSha512 || scheme = sigRsaPssSha512 || scheme = sigRsaPkcs1Sha512 then
    some .sha512
  else none

/-- A signature by the key of a leaf; the scheme and the key have to agree. -/
def signatureOk (keyAlg curve key signed sig : Bytes) (scheme : UInt16) : Bool :=
  match schemeHash scheme with
  | none => false
  | some hash =>
    let digest := hash.hash P signed
    if keyAlg = oidEc then isEcdsa scheme && ecdsaSigned P curve key sig digest
    else if keyAlg = oidRsa then
      !isEcdsa scheme && rsaSigned (if isPkcs1 scheme then P.rsaPkcs1 else P.rsaPss) key sig hash digest
    else false

/-- A CertificateVerify signature: the chain and the name first, then the key. -/
def verifyWithChain (chain host signed sig : Bytes) (scheme : UInt16) : Bool :=
  let w := walk chain
  if w.truncated then false
  else
    match w.leaf with
    | none => false
    | some leaf =>
      chainAndNameOk P chain host && signatureOk P leaf.keyAlg leaf.curve leaf.key signed sig scheme

/-- The signature of a TLS 1.2 ServerKeyExchange. -/
def verifyHandshakeSignature (signed sig : Bytes) (scheme : UInt16) (keyAlg curve key : Bytes) : Bool :=
  signatureOk P keyAlg curve key signed sig scheme

end BarryOS.Crypto
