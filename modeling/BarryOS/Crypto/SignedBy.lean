import BarryOS.Crypto.TlsTrust

/-!
# The algorithm a signature is checked with

A certificate names the algorithm of its signature twice, outside the signed part and in it.
`verify_signed_by` takes the hash from the outer name and everything else from the issuer's key, and
does not read the inner name. So a signature is checked as it is named exactly where the outer name is
one for the issuer's kind of key and the inner name is the same (`signed_as_named_iff`).
-/

namespace BarryOS.Crypto.X509

open Lib Der

inductive KeyKind where
  | rsa | ec
deriving DecidableEq

def keyKind (oid : Bytes) : Option KeyKind :=
  if oid = oidRsa then some .rsa else if oid = oidEc then some .ec else none

/-- What an identifier names: the keys that make such signatures, and the hash. -/
def algorithm (oid : Bytes) : Option (KeyKind × HashId) :=
  if oid = oidSha256Rsa then some (.rsa, .sha256)
  else if oid = oidSha384Rsa then some (.rsa, .sha384)
  else if oid = oidSha512Rsa then some (.rsa, .sha512)
  else if oid = oidEcdsaSha256 then some (.ec, .sha256)
  else if oid = oidEcdsaSha384 then some (.ec, .sha384)
  else if oid = oidEcdsaSha512 then some (.ec, .sha512)
  else none

/-- The AlgorithmIdentifier in the signed part. -/
def innerAlgorithm (tbs : Bytes) : Option Bytes := do
  let t ← parseOne tbs
  let (_, rest) ← expect tagInteger (skipVersion t.body)
  let (alg, _) ← expect tagSequence rest
  some alg.full

/-- A signature of the data by the issuer's key, as keys of its kind make them. -/
def KeyKind.signs (P : Primitives) (issuer : Cert) (sig : Bytes) (hash : HashId) (data : Bytes) : KeyKind → Bool
  | .rsa => rsaSigned P.rsaPkcs1 issuer.key sig hash (hash.hash P data)
  | .ec => ecdsaSigned P issuer.curve issuer.key sig (hash.hash P data)

/-- The identifier is for the issuer's key and the same in both places, and the signature is one over
the signed part with the hash it names. -/
def SignedAsNamed (P : Primitives) (child issuer : Cert) : Prop :=
  ∃ kind hash, algorithm child.sigAlg = some (kind, hash) ∧ keyKind issuer.keyAlg = some kind ∧
    innerAlgorithm child.tbs = some child.sigAlgFull ∧ kind.signs P issuer child.signature hash child.tbs = true

/-- The key, or the curve and the signature, can be read. -/
def KeyKind.Reads (issuer : Cert) (sig : Bytes) : KeyKind → Prop
  | .rsa => ∃ k nt et n e, parseOne issuer.key = some k ∧ twoIntegers k.body = some (nt, et) ∧
      intBytes nt = some n ∧ intBytes et = some e
  | .ec => ∃ c parts, curveOf issuer.curve = some c ∧ ecdsaParts c.orderLen sig = some parts

theorem KeyKind.signs_reads {P : Primitives} {issuer : Cert} {sig data : Bytes} {hash : HashId} {kind : KeyKind}
    (signs : kind.signs P issuer sig hash data = true) : kind.Reads issuer sig := by
  cases kind with
  | rsa =>
    simp only [KeyKind.signs, rsaSigned] at signs
    split at signs
    · cases signs
    rename_i k key
    split at signs
    · cases signs
    rename_i nt et two
    split at signs
    next n e modulus exponent => exact ⟨k, nt, et, n, e, key, two, modulus, exponent⟩
    · cases signs
  | ec =>
    simp only [KeyKind.signs, ecdsaSigned] at signs
    split at signs
    · cases signs
    rename_i c curve
    split at signs
    · cases signs
    rename_i r s parts
    exact ⟨c, (r, s), curve, parts⟩

/-- Where every signature holds, it is enough that it can be read. -/
theorem KeyKind.Reads.signs {issuer : Cert} {sig : Bytes} {kind : KeyKind} (reads : kind.Reads issuer sig)
    (hash : HashId) (data : Bytes) : kind.signs samplePrimitives issuer sig hash data = true := by
  cases kind with
  | rsa =>
    obtain ⟨k, nt, et, n, e, key, two, modulus, exponent⟩ := reads
    simp only [KeyKind.signs, rsaSigned, key, two, modulus, exponent]
    rfl
  | ec =>
    obtain ⟨c, parts, curve, read⟩ := reads
    simp only [KeyKind.signs, ecdsaSigned, curve, read]
    rfl

theorem hashOf_eq (oid : Bytes) : hashOf oid = (algorithm oid).map Prod.snd := by
  unfold hashOf algorithm
  by_cases rsa256 : oid = oidSha256Rsa
  · simp [rsa256]
  by_cases rsa384 : oid = oidSha384Rsa
  · subst rsa384
    decide
  by_cases rsa512 : oid = oidSha512Rsa
  · subst rsa512
    decide
  simp only [rsa256, rsa384, rsa512, decide_false, Bool.false_or, decide_eq_true_eq]
  split
  · rfl
  split
  · rfl
  · split <;> rfl

theorem verifySignedBy_iff (P : Primitives) (child issuer : Cert) : verifySignedBy P child issuer = true ↔
    ∃ named hash kind, algorithm child.sigAlg = some (named, hash) ∧ keyKind issuer.keyAlg = some kind ∧
      kind.signs P issuer child.signature hash child.tbs = true := by
  unfold verifySignedBy keyKind
  rw [hashOf_eq]
  cases alg : algorithm child.sigAlg with
  | none => simp
  | some named =>
    obtain ⟨named, hash⟩ := named
    have padding : child.sigAlg ≠ oidRsaPss := by
      intro pss
      have none : algorithm oidRsaPss = none := by
        decide
      rw [pss] at alg
      cases alg
    simp only [Option.map_some]
    split
    · simp [KeyKind.signs]
    split
    · simp [KeyKind.signs]
    · simp

/-- For every pair of certificates: whatever the primitives compute, a signature that is accepted is one
as it is named, exactly if the names fit or nothing is accepted for want of a name or of something to
read. -/
theorem signed_as_named_iff (child issuer : Cert) :
    (∀ P, verifySignedBy P child issuer = true → SignedAsNamed P child issuer) ↔
      ((algorithm child.sigAlg).map Prod.fst = keyKind issuer.keyAlg ∧
          innerAlgorithm child.tbs = some child.sigAlgFull) ∨
        algorithm child.sigAlg = none ∨ ∀ kind, keyKind issuer.keyAlg = some kind →
          ¬ kind.Reads issuer child.signature := by
  constructor
  · intro all
    cases alg : algorithm child.sigAlg with
    | none => exact .inr (.inl rfl)
    | some named =>
      obtain ⟨named, hash⟩ := named
      by_cases reads : ∃ kind, keyKind issuer.keyAlg = some kind ∧ kind.Reads issuer child.signature
      · obtain ⟨kind, key, reads⟩ := reads
        obtain ⟨kind', hash', alg', key', inner, -⟩ := all samplePrimitives
          ((verifySignedBy_iff _ _ _).mpr ⟨named, hash, kind, alg, key, reads.signs hash child.tbs⟩)
        cases alg.symm.trans alg'
        exact .inl ⟨key'.symm, inner⟩
      · exact .inr (.inr fun kind key readable => reads ⟨kind, key, readable⟩)
  · intro fits P accepted
    obtain ⟨named, hash, kind, alg, key, signs⟩ := (verifySignedBy_iff P child issuer).mp accepted
    rcases fits with ⟨same, inner⟩ | unnamed | unread
    · rw [alg, key] at same
      cases same
      exact ⟨named, hash, alg, key, inner, signs⟩
    · cases alg.symm.trans unnamed
    · exact absurd (KeyKind.signs_reads signs) (unread kind key)

/-- The modulus of an RSA key of 1024 bits. -/
def rsaModulus : Bytes :=
  [0xbbe9f5a86a7abe3c74d6009621651e19c36a75e70f18082637f73c1c6dffac2e,
    0x491aec1cdace0485a9f6cd4131f08aef6f7033d35e0a475b01df112db7eee2b5,
    0xe7d6ecf8f38f0803e189b0c445dfbcee6fddd76148b8fd012242cfcb0f418c53,
    0x793f59eb9cfe68937b69c3f8d38c45bdd6aba54bc482077d6457e3ac558dfe77].flatMap fun part =>
      (List.range 32).map fun i => UInt8.ofNat (part >>> (8 * (31 - i)))

/-- A root as the store gives it, with that key and the exponent 65537. -/
def rsaIssuer : Cert :=
  { keyAlg := oidRsa
    key := [0x30, 0x81, 0x89, 0x02, 0x81, 0x81, 0x00] ++ rsaModulus ++ [0x02, 0x03, 0x01, 0x00, 0x01] }

theorem rsaIssuer_key (check : Bytes → Bytes → Bytes → HashId → Bytes → Bool) :
    rsaSigned check rsaIssuer.key = check rsaModulus [1, 0, 1] := by
  have outer : parseOne rsaIssuer.key = some ⟨0x30, rsaIssuer.key.drop 3, rsaIssuer.key⟩ := by
    decide +kernel
  have inner : twoIntegers (rsaIssuer.key.drop 3) = some (⟨2, 0 :: rsaModulus, slice rsaIssuer.key 3 135⟩,
      ⟨2, [1, 0, 1], rsaIssuer.key.drop 135⟩) := by
    decide +kernel
  funext sig hash digest
  simp only [rsaSigned, outer, inner]
  rfl

/-- Whatever the primitives are: a PKCS #1 signature of that key passes for the ECDSA signature that the
certificate names. -/
theorem rsa_signature_passes_for_ecdsa : ¬ ∃ P : Primitives,
    (∃ sig, P.rsaPkcs1 rsaModulus [1, 0, 1] sig .sha256 (HashId.hash P .sha256 sampleCert.tbs) = true) ∧
      ∀ child issuer, verifySignedBy P child issuer = true → SignedAsNamed P child issuer := by
  rintro ⟨P, ⟨sig, signed⟩, all⟩
  have alg : algorithm sampleCert.sigAlg = some (.ec, .sha256) := by
    decide +kernel
  have key : keyKind rsaIssuer.keyAlg = some .rsa := by
    decide
  -- what else the certificate holds does not matter
  generalize sampleCert = cert at alg signed
  have signs : KeyKind.rsa.signs P rsaIssuer sig .sha256 cert.tbs = true := by
    rw [KeyKind.signs, rsaIssuer_key]
    exact signed
  obtain ⟨kind, hash, alg', key', -⟩ := all { cert with signature := sig } rsaIssuer
    ((verifySignedBy_iff _ _ _).mpr ⟨.ec, .sha256, .rsa, alg, key, signs⟩)
  cases alg.symm.trans alg'
  cases key.symm.trans key'

end BarryOS.Crypto.X509
