import BarryOS.Crypto.Primitives
import BarryOS.Lib.Loop
import BarryOS.Lib.Utf8

/-!
# X.509 certificates (crypto/x509.rs)

`parse` reads one certificate, `verifySignedBy` checks a certificate against the key of its
issuer, `hostnameMatches` looks for the host among the names. A string is its octets, and a
reader (`Der`) the octets it has not read yet.
-/

namespace BarryOS.Crypto

open Lib

/-! ## The DER reader -/

namespace Der

def tagBoolean : UInt8 := 0x01
def tagInteger : UInt8 := 0x02
def tagBitString : UInt8 := 0x03
def tagOctetString : UInt8 := 0x04
def tagOid : UInt8 := 0x06
def tagSequence : UInt8 := 0x30
def tagUtcTime : UInt8 := 0x17
def tagGeneralizedTime : UInt8 := 0x18

/-- A tag-length-value; `full` is the tag and the length as well. -/
structure Tlv where
  tag : UInt8
  body : Bytes
  full : Bytes
  deriving DecidableEq, Repr

/-- The length that follows a tag, and where the contents begin. -/
def lengthAt (d : Bytes) : Option (Nat × Nat) :=
  let first := octet d 1
  if first &&& 0x80 = 0 then some (first.toNat, 2)
  else
    let n := (first &&& 0x7F).toNat
    -- an indefinite length is not DER, and no structure needs five octets
    if n = 0 || n > 4 || d.length < 2 + n then none
    else some ((slice d 2 (2 + n)).foldl (fun v b => v * 256 + b.toNat) 0, 2 + n)

/-- One value from the front of `d`, and the rest. -/
def read (d : Bytes) : Option (Tlv × Bytes) :=
  if d.length < 2 then none
  else
    match lengthAt d with
    | none => none
    | some (len, hdr) =>
      if d.length < hdr + len then none
      else some (⟨octet d 0, slice d hdr (hdr + len), d.take (hdr + len)⟩, d.drop (hdr + len))

/-- `Reader::expect`: the next value, if it has this tag. -/
def expect (tag : UInt8) (d : Bytes) : Option (Tlv × Bytes) :=
  match read d with
  | some (t, rest) => if t.tag = tag then some (t, rest) else none
  | none => none

def peekTag (d : Bytes) : Option UInt8 := d.head?

/-- The one value that is the whole of `d`. -/
def parseOne (d : Bytes) : Option Tlv :=
  match read d with
  | some (t, rest) => if rest.isEmpty then some t else none
  | none => none

/-- The magnitude of an INTEGER. -/
def intBytes (t : Tlv) : Option Bytes :=
  if t.tag ≠ tagInteger || t.body.isEmpty then none
  else if octet t.body 0 = 0 then some (t.body.drop 1) else some t.body

/-- The contents of a BIT STRING with no partial octet. -/
def bitString (t : Tlv) : Option Bytes :=
  if t.tag ≠ tagBitString || t.body.isEmpty then none
  else if octet t.body 0 ≠ 0 then none else some (t.body.drop 1)

/-- `SEQUENCE { a INTEGER, b INTEGER }`, read past whatever its own tag is. -/
def twoIntegers (body : Bytes) : Option (Tlv × Tlv) := do
  let (a, rest) ← expect tagInteger body
  let (b, _) ← expect tagInteger rest
  some (a, b)

end Der

namespace X509

open Der

def oidRsa : Bytes := [0x2a, 0x86, 0x48, 0x86, 0xf7, 0x0d, 0x01, 0x01, 0x01]
def oidSha256Rsa : Bytes := [0x2a, 0x86, 0x48, 0x86, 0xf7, 0x0d, 0x01, 0x01, 0x0b]
def oidSha384Rsa : Bytes := [0x2a, 0x86, 0x48, 0x86, 0xf7, 0x0d, 0x01, 0x01, 0x0c]
def oidSha512Rsa : Bytes := [0x2a, 0x86, 0x48, 0x86, 0xf7, 0x0d, 0x01, 0x01, 0x0d]
def oidRsaPss : Bytes := [0x2a, 0x86, 0x48, 0x86, 0xf7, 0x0d, 0x01, 0x01, 0x0a]
def oidEc : Bytes := [0x2a, 0x86, 0x48, 0xce, 0x3d, 0x02, 0x01]
def oidEcdsaSha256 : Bytes := [0x2a, 0x86, 0x48, 0xce, 0x3d, 0x04, 0x03, 0x02]
def oidEcdsaSha384 : Bytes := [0x2a, 0x86, 0x48, 0xce, 0x3d, 0x04, 0x03, 0x03]
def oidEcdsaSha512 : Bytes := [0x2a, 0x86, 0x48, 0xce, 0x3d, 0x04, 0x03, 0x04]
def oidP256 : Bytes := [0x2a, 0x86, 0x48, 0xce, 0x3d, 0x03, 0x01, 0x07]
def oidP384 : Bytes := [0x2b, 0x81, 0x04, 0x00, 0x22]
def oidSan : Bytes := [0x55, 0x1d, 0x11]
def oidBasicConstraints : Bytes := [0x55, 0x1d, 0x13]

/-- A parsed certificate. `tbs` is what the signature covers. -/
structure Cert where
  tbs : Bytes := []
  sigAlg : Bytes := []
  sigAlgFull : Bytes := []
  signature : Bytes := []
  issuer : Bytes := []
  subject : Bytes := []
  notBefore : Int := 0
  notAfter : Int := 0
  keyAlg : Bytes := []
  curve : Bytes := []
  key : Bytes := []
  isCa : Bool := false
  san : Bytes := []
  deriving DecidableEq, Repr

/-! ## Dates -/

def isDigit (b : UInt8) : Bool := 0x30 ≤ b && b ≤ 0x39

def digit (b : UInt8) : Int := (b - 0x30).toNat

def two (b : Bytes) : Option Int :=
  if b.length < 2 || !isDigit (octet b 0) || !isDigit (octet b 1) then none
  else some (digit (octet b 0) * 10 + digit (octet b 1))

def four (b : Bytes) : Option Int :=
  if b.length < 4 || !b.all isDigit then none
  else some (digit (octet b 0) * 1000 + digit (octet b 1) * 100 + digit (octet b 2) * 10 +
    digit (octet b 3))

/-- Days since 1970-01-01; division is towards zero. -/
def daysFromCivil (y m d : Int) : Int :=
  let y := if m ≤ 2 then y - 1 else y
  let era := (if y ≥ 0 then y else y - 399).tdiv 400
  let yoe := y - era * 400
  let mp := (m + 9).tmod 12
  let doy := (153 * mp + 2).tdiv 5 + d - 1
  let doe := yoe * 365 + yoe.tdiv 4 - yoe.tdiv 100 + doy
  era * 146097 + doe - 719468

/-- The year of a UTCTime or GeneralizedTime, and what follows it. -/
def parseYear (t : Tlv) : Option (Int × Bytes) :=
  if t.tag = tagUtcTime then
    if t.body.length < 11 then none
    else
      match two (slice t.body 0 2) with
      | none => none
      | some yy => some (if yy ≥ 50 then 1900 + yy else 2000 + yy, t.body.drop 2)
  else if t.tag = tagGeneralizedTime then
    if t.body.length < 13 then none
    else
      match four (slice t.body 0 4) with
      | none => none
      | some y => some (y, t.body.drop 4)
  else none

/-- Seconds since the epoch. -/
def parseTime (t : Tlv) : Option Int := do
  let (year, rest) ← parseYear t
  if rest.length < 11 || octet rest 10 ≠ 0x5A then none
  let mo ← two (slice rest 0 2)
  let d ← two (slice rest 2 4)
  let h ← two (slice rest 4 6)
  let mi ← two (slice rest 6 8)
  let s ← two (slice rest 8 10)
  if !(1 ≤ mo && mo ≤ 12) || !(1 ≤ d && d ≤ 31) || h > 23 || mi > 59 || s > 60 then none
  some (daysFromCivil year mo d * 86400 + h * 3600 + mi * 60 + s)

/-! ## Extensions -/

/-- What the extensions say so far, and the octets not read yet. -/
structure Extensions where
  rest : Bytes
  isCa : Bool := false
  san : Bytes := []

/-- The cA flag of a basicConstraints value. -/
def caFlag (value : Bytes) (isCa : Bool) : Bool :=
  match parseOne value with
  | none => isCa
  | some bc =>
    if peekTag bc.body = some tagBoolean then
      match read bc.body with
      | some (b, _) => b.body.headD 0 ≠ 0
      | none => isCa
    else isCa

/-- Skip the optional `critical` flag. -/
def skipCritical (d : Bytes) : Bytes :=
  if peekTag d = some tagBoolean then
    match read d with
    | some (_, rest) => rest
    | none => d
  else d

/-- One extension; a malformed one is passed over. -/
def readExtension (x : Tlv) (e : Extensions) : Extensions :=
  match expect tagOid x.body with
  | none => e
  | some (oid, one) =>
    match expect tagOctetString (skipCritical one) with
    | none => e
    | some (value, _) =>
      if oid.body = oidSan then { e with san := value.body }
      else if oid.body = oidBasicConstraints then { e with isCa := caFlag value.body e.isCa }
      else e

def extensionStep (e : Extensions) : Option Extensions :=
  (expect tagSequence e.rest).map fun x => { readExtension x.1 e with rest := x.2 }

/-- The inner loop: the extensions of one list. -/
def readExtensions (e : Extensions) : Extensions :=
  whileSome (fun e => e.rest.length) extensionStep e

/-- One turn of the outer loop: only `[3]` holds extensions. -/
def readTail (t : Tlv) (e : Extensions) : Extensions :=
  if t.tag ≠ 0xA3 then e
  else
    match parseOne t.body with
    | none => e
    | some exts =>
      if exts.tag ≠ tagSequence then e
      else { readExtensions { e with rest := exts.body } with rest := e.rest }

def tailStep (e : Extensions) : Option Extensions :=
  (read e.rest).map fun t => { readTail t.1 e with rest := t.2 }

/-- The outer loop over what follows the key. -/
def readTails (rest : Bytes) : Extensions :=
  whileSome (fun e => e.rest.length) tailStep ⟨rest, false, []⟩

/-! ## Certificates -/

/-- The version is optional and encoded as `[0]`. -/
def skipVersion (d : Bytes) : Bytes :=
  if peekTag d = some 0xA0 then
    match read d with
    | some (_, rest) => rest
    | none => d
  else d

/-- The algorithm, the curve (or nothing) and the key of a SubjectPublicKeyInfo. -/
def spkiFields (body : Bytes) : Option (Bytes × Bytes × Bytes) := do
  let (alg, rest) ← expect tagSequence body
  let (bits, _) ← expect tagBitString rest
  let key ← bitString bits
  let (keyAlg, rest) ← expect tagOid alg.body
  let curve := match expect tagOid rest with
    | some (o, _) => o.body
    | none => []
  some (keyAlg.body, curve, key)

/-- Both ends of the validity. -/
def readValidity (body : Bytes) : Option (Int × Int) := do
  let (nb, rest) ← read body
  let (na, _) ← read rest
  let notBefore ← parseTime nb
  let notAfter ← parseTime na
  some (notBefore, notAfter)

def parse (der : Bytes) : Option Cert := do
  let cert ← parseOne der
  if cert.tag ≠ tagSequence then none
  let (tbs, r) ← expect tagSequence cert.body
  let (alg, r) ← expect tagSequence r
  let (sig, _) ← expect tagBitString r
  let signature ← bitString sig
  let (sigAlg, _) ← expect tagOid alg.body
  let (_, t) ← expect tagInteger (skipVersion tbs.body)
  let (_, t) ← expect tagSequence t
  let (issuer, t) ← expect tagSequence t
  let (validity, t) ← expect tagSequence t
  let (subject, t) ← expect tagSequence t
  let (spki, t) ← expect tagSequence t
  let (notBefore, notAfter) ← readValidity validity.body
  let (keyAlg, curve, key) ← spkiFields spki.body
  let e := readTails t
  some {
    tbs := tbs.full, sigAlg := sigAlg.body, sigAlgFull := alg.full, signature,
    issuer := issuer.full, subject := subject.full, notBefore, notAfter,
    keyAlg, curve, key, isCa := e.isCa, san := e.san }

/-! ## Signatures -/

variable (P : Primitives)

def hashOf (oid : Bytes) : Option HashId :=
  if oid = oidSha256Rsa || oid = oidEcdsaSha256 then some .sha256
  else if oid = oidSha384Rsa || oid = oidEcdsaSha384 then some .sha384
  else if oid = oidSha512Rsa || oid = oidEcdsaSha512 then some .sha512
  else none

def curveOf (oid : Bytes) : Option Curve :=
  if oid = oidP256 then some .p256 else if oid = oidP384 then some .p384 else none

/-- A signature by an RSAPublicKey, checked with the padding `check` is for. -/
def rsaSigned (check : Bytes → Bytes → Bytes → HashId → Bytes → Bool) (key sig : Bytes)
    (hash : HashId) (digest : Bytes) : Bool :=
  match parseOne key with
  | none => false
  | some k =>
    match twoIntegers k.body with
    | none => false
    | some (nt, et) =>
      match intBytes nt, intBytes et with
      | some n, some e => check n e sig hash digest
      | _, _ => false

/-- `r` and `s` of an ECDSA signature, filled up to the width of the order. -/
def ecdsaParts (w : Nat) (sig : Bytes) : Option (Bytes × Bytes) :=
  match parseOne sig with
  | none => none
  | some seq =>
    if seq.tag ≠ tagSequence then none
    else
      match twoIntegers seq.body with
      | none => none
      | some (rt, st) =>
        match intBytes rt, intBytes st with
        | some r, some s =>
          if r.length > w || s.length > w then none
          else some (zeros (w - r.length) ++ r, zeros (w - s.length) ++ s)
        | _, _ => none

/-- A signature by an EC key. -/
def ecdsaSigned (curve key sig digest : Bytes) : Bool :=
  match curveOf curve with
  | none => false
  | some c =>
    match ecdsaParts c.orderLen sig with
    | none => false
    | some (r, s) => P.ecdsa c key r s digest

/-- Was `child` signed by the key in `issuer`? -/
def verifySignedBy (child issuer : Cert) : Bool :=
  match hashOf child.sigAlg with
  | none => false
  | some hash =>
    let digest := hash.hash P child.tbs
    if issuer.keyAlg = oidRsa then
      rsaSigned (if child.sigAlg = oidRsaPss then P.rsaPss else P.rsaPkcs1) issuer.key child.signature hash digest
    else if issuer.keyAlg = oidEc then ecdsaSigned P issuer.curve issuer.key child.signature digest
    else false

def sameName (a b : Bytes) : Bool := a = b

/-! ## Names -/

def asciiLower (b : UInt8) : UInt8 := if 0x41 ≤ b && b ≤ 0x5A then b + 0x20 else b

def eqIgnoreAsciiCase (a b : Bytes) : Bool := a.map asciiLower = b.map asciiLower

/-- A wildcard stands for the whole leftmost label, and only there. -/
def nameMatches (pattern host : Bytes) : Bool :=
  if !pattern.contains 0x2A then eqIgnoreAsciiCase pattern host
  else if pattern.take 2 ≠ [0x2A, 0x2E] then false
  else
    let rest := pattern.drop 2
    if rest.contains 0x2A then false
    else
      match host.findIdx? (· = 0x2E) with
      | none => false
      | some dot =>
        let hostRest := host.drop (dot + 1)
        !hostRest.isEmpty && eqIgnoreAsciiCase rest hostRest

/-- The loop over the names: what is left to read, and whether one matched. -/
structure Names where
  rest : Bytes
  found : Bool := false

def nameStep (host : Bytes) (n : Names) : Option Names :=
  if n.found then none
  else
    match read n.rest with
    | none => none
    | some (name, rest) =>
      some ⟨rest, name.tag = 0x82 && validUtf8 name.body && nameMatches name.body host⟩

/-- Does the certificate cover `host`? Only the subjectAltName is asked. -/
def hostnameMatches (cert : Cert) (host : Bytes) : Bool :=
  if cert.san.isEmpty then false
  else
    match parseOne cert.san with
    | none => false
    | some seq =>
      if seq.tag ≠ tagSequence then false
      else (whileSome (fun n => n.rest.length) (nameStep host) ⟨seq.body, false⟩).found

end X509

end BarryOS.Crypto
