import BarryOS.Crypto.ChainPath
import BarryOS.Crypto.Tls

/-!
# Which chains the client accepts, and when

A Certificate message is taken by `handleCertificate` and judged by `chainAndNameOk`, in both
versions. What passes is a path from the certificate that names the host to the store. The
decision never sees a clock: the dates of the path are read and not compared.
-/

namespace BarryOS.Crypto

open Lib X509 List

variable (P : Primitives)

/-- The client takes the message, and the chain in it passes. -/
structure Accepts (s : Tls) (body : Bytes) (withContext : Bool) (s' : Tls) : Prop where
  taken : s.handleCertificate body withContext = (true, s')
  passes : s'.chainAndNameOk P = true

theorem handleCertificate_takes {body chain : Bytes} {withContext : Bool}
    (list : certificateList body withContext = some chain) (s : Tls) :
    s.handleCertificate body withContext = (true, { s with chain := chain }) := by
  unfold Tls.handleCertificate
  rw [list]

theorem handleCertificate_taken {s s' : Tls} {body : Bytes} {withContext : Bool}
    (taken : s.handleCertificate body withContext = (true, s')) :
    ∃ chain, certificateList body withContext = some chain ∧ s' = { s with chain := chain } := by
  unfold Tls.handleCertificate at taken
  split at taken
  · cases taken
  rename_i chain list
  cases taken
  exact ⟨chain, list, rfl⟩

theorem Accepts.path {s s' : Tls} {body : Bytes} {withContext : Bool} (accepted : Accepts P s body withContext s') :
    ∃ list certs, Listed withContext body list ∧ Entries withContext list certs ∧ Stored s'.chain certs ∧
      (∃ leafDer leaf rest, certs = leafDer :: rest ∧ X509.parse leafDer = some leaf ∧
        hostnameMatches leaf s.hostStr = true) ∧ Path P (certs.take 8) := by
  obtain ⟨taken, passes⟩ := accepted
  obtain ⟨chain, read, rfl⟩ := handleCertificate_taken taken
  obtain ⟨list, certs, found, entries, stored, -⟩ := certificateList_stored read
  have judged : chainAndNameOk P chain s.hostStr = true := passes
  obtain ⟨leafDer, leaf, rest, first, parsed, name, path⟩ := (chainAndNameOk_iff P stored _).mp judged
  exact ⟨list, certs, listOctets_listed found, entries, stored, ⟨leafDer, leaf, rest, first, parsed, name⟩, path⟩

/-- What an accepted message is: its certificates are what is stored, in order and nothing
else, the first names the host, and up to the depth the client looks at they are a path. -/
theorem accepted_is_path {s s' : Tls} {body : Bytes} {withContext : Bool} (accepted : Accepts P s body withContext s') :
    ∃ list certs, Listed withContext body list ∧ Entries withContext list certs ∧
      (∀ others, Stored s'.chain others ↔ others = certs) ∧
      (∃ leafDer leaf rest, certs = leafDer :: rest ∧ X509.parse leafDer = some leaf ∧
        hostnameMatches leaf s.hostStr = true) ∧ Path P (certs.take 8) := by
  obtain ⟨list, certs, listed, entries, stored, leaf, path⟩ := accepted.path P
  refine ⟨list, certs, listed, entries, fun others => ⟨fun other => stored.unique other, ?_⟩, leaf, path⟩
  rintro rfl
  exact stored

/-! ## A chain of one -/

/-- A certificate for `1.2.3.4` that may issue, in its own name, with a P-256 key of one octet.
It is valid on the first day of 1970. -/
def sampleDer : Bytes :=
  [0x30, 0x7b, 0x30, 0x6a, 0x02, 0x01, 0x01, 0x30, 0x00, 0x30, 0x00, 0x30, 0x1e, 0x17, 0x0d, 0x37,
    0x30, 0x30, 0x31, 0x30, 0x31, 0x30, 0x30, 0x30, 0x30, 0x30, 0x30, 0x5a, 0x17, 0x0d, 0x37, 0x30,
    0x30, 0x31, 0x30, 0x32, 0x30, 0x30, 0x30, 0x30, 0x30, 0x30, 0x5a, 0x30, 0x00, 0x30, 0x19, 0x30,
    0x13, 0x06, 0x07, 0x2a, 0x86, 0x48, 0xce, 0x3d, 0x02, 0x01, 0x06, 0x08, 0x2a, 0x86, 0x48, 0xce,
    0x3d, 0x03, 0x01, 0x07, 0x03, 0x02, 0x00, 0x04, 0xa3, 0x24, 0x30, 0x22, 0x30, 0x12, 0x06, 0x03,
    0x55, 0x1d, 0x11, 0x04, 0x0b, 0x30, 0x09, 0x82, 0x07, 0x31, 0x2e, 0x32, 0x2e, 0x33, 0x2e, 0x34,
    0x30, 0x0c, 0x06, 0x03, 0x55, 0x1d, 0x13, 0x04, 0x05, 0x30, 0x03, 0x01, 0x01, 0xff, 0x30, 0x0a,
    0x06, 0x08, 0x2a, 0x86, 0x48, 0xce, 0x3d, 0x04, 0x03, 0x02, 0x03, 0x01, 0x00]

def sampleCert : Cert := (X509.parse sampleDer).getD {}

/-- The store's entry for it. -/
def sampleRoot : Root :=
  ⟨[0x30, 0], [0x30, 0x19, 0x30, 0x13, 0x06, 0x07, 0x2a, 0x86, 0x48, 0xce, 0x3d, 0x02, 0x01, 0x06, 0x08, 0x2a,
      0x86, 0x48, 0xce, 0x3d, 0x03, 0x01, 0x07, 0x03, 0x02, 0x00, 0x04]⟩

/-- `"1.2.3.4"`. -/
def sampleHost : Bytes := [0x31, 0x2e, 0x32, 0x2e, 0x33, 0x2e, 0x34]

/-- The body of a TLS 1.2 Certificate message with that one certificate. -/
def sampleBody : Bytes := be24 128 ++ (be24 125 ++ sampleDer)

/-- Stand-ins for the primitives: every digest is zero, every signature holds. -/
def samplePrimitives : Primitives where
  sha256 := fun _ _ => 0
  sha384 := fun _ _ => 0
  sha512 := fun _ _ => 0
  gcmTag := fun _ _ _ _ _ => 0
  gctr := fun _ _ _ => 0
  x25519 := fun _ _ _ => 1
  ecdsa := fun _ _ _ _ _ => true
  p256Public := fun _ => none
  p256Shared := fun _ _ => none
  rsaPkcs1 := fun _ _ _ _ _ => true
  rsaPss := fun _ _ _ _ _ => true
  roots := [sampleRoot]

/-- The same certificate with a signature behind it that can be read. -/
def issuedDer : Bytes :=
  [0x30, 0x81, 0x83] ++ (sampleDer.drop 2).take 120 ++
    [0x03, 0x09, 0x00, 0x30, 0x06, 0x02, 0x01, 0x01, 0x02, 0x01, 0x01]

/-- The body of a TLS 1.2 Certificate message with both. -/
def pairBody : Bytes := be24 265 ++ (be24 134 ++ issuedDer ++ (be24 125 ++ sampleDer))

def pairChain : Bytes := be32 134 ++ issuedDer ++ (be32 125 ++ sampleDer)

theorem pair_accepted : Accepts samplePrimitives { ({} : Tls) with host := sampleHost } pairBody false
    { ({} : Tls) with host := sampleHost, chain := pairChain } :=
  ⟨handleCertificate_takes (by decide +kernel) _, by decide +kernel⟩

theorem pair_is_path : ∃ list certs, Listed false pairBody list ∧ Entries false list certs ∧
    (∀ others, Stored pairChain others ↔ others = certs) ∧
    (∃ leafDer leaf rest, certs = leafDer :: rest ∧ X509.parse leafDer = some leaf ∧
      hostnameMatches leaf sampleHost = true) ∧ Path samplePrimitives (certs.take 8) :=
  accepted_is_path samplePrimitives pair_accepted

/-! ## Dates -/

end BarryOS.Crypto
