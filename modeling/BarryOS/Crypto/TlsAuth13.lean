import BarryOS.Crypto.TlsForged
import BarryOS.Crypto.TlsKeys
import BarryOS.Crypto.TlsTrust

/-!
# Who the server is, in TLS 1.3

Everything rests on one message: a CertificateVerify that is taken has had its chain, its name
and its signature checked. The state machine does not wait for it. `VerifyFirst` is what the
server has to do instead, and it is exactly enough.
-/

namespace BarryOS.Crypto

open Lib X509 Session

variable (P : Primitives) {env : Env}

/-- A Certificate message and a CertificateVerify that goes with it. -/
structure Signed13 (host cm : Bytes) (vb : Tls) (vm : Bytes) (leaf : Cert) : Prop where
  certificate : octet cm 0 = hsCertificate
  stored : certificateList (cm.drop 4) true = some vb.chain
  verify : octet vm 0 = hsCertificateVerify
  trusted : chainTrusted P vb.chain = true
  parsed : X509.parse (leafDer vb.chain) = some leaf
  name : hostnameMatches leaf host = true
  signed : signatureOk P leaf.keyAlg leaf.curve leaf.key (certificateVerifyInput (vb.transcriptHash P))
    (slice vm 8 (8 + (be16At vm 6).toNat)) (be16At vm 4) = true

/-- Both were taken, in that order. -/
def Authenticated13 (host : Bytes) (earlier : List Entry) : Prop :=
  ∃ front cb cm ca middle vb vm va rear leaf, Signed13 P host cm vb vm leaf ∧
    earlier = front ++ .message cb cm true ca :: (middle ++ .message vb vm true va :: rear)

/-- A Finished was taken, and whenever one was, the server had been authenticated before. -/
structure ServerAuthenticated13 (σ : Session) : Prop where
  finished : ∃ b m a, Entry.message b m true a ∈ σ.log ∧ b.version ≠ 12 ∧ octet m 0 = hsFinished
  before : ∀ earlier b m a later, σ.log = earlier ++ .message b m true a :: later → b.version ≠ 12 →
    octet m 0 = hsFinished → Authenticated13 P σ.tls.hostStr earlier

/-- No Finished of TLS 1.3 comes without a CertificateVerify before it. -/
def VerifyFirst (log : List Entry) : Prop :=
  Chronicle (fun earlier e => e.is13 hsFinished = true → earlier.any (Entry.is13 hsCertificateVerify) = true) log

instance (log : List Entry) : Decidable (VerifyFirst log) := inferInstanceAs (Decidable (Chronicle _ log))

/-- A CertificateVerify that was taken stands behind the Certificate it is checked with. -/
theorem authenticated13_of_verify {earlier : List Entry} {s : Tls} (entries : Chronicle (Genuine P) earlier)
    (origins : Origins earlier s)
    (verify : Heard earlier fun b m _ _ => b.version ≠ 12 ∧ octet m 0 = hsCertificateVerify) :
    Authenticated13 P s.hostStr earlier := by
  obtain ⟨vb, vm, ok, va, member, vv, kind⟩ := verify
  have accepted : ok = true := by
    cases ok with
    | true => rfl
    | false => exact absurd (origins.answered vb vm va member).1 vv
  subst accepted
  obtain ⟨before, rear, split, before', -, env, handled⟩ := entries.of_mem member
  obtain ⟨leaf, parsed, trusted, name, signed⟩ :=
    verifyWithChain_true P (((Tls.effect_of_handled P handled).taken13 P vv).2.1 kind)
  have chain := before'.chain.resolve_left fun none => by
    rw [none] at parsed
    exact absurd parsed (by simp [leafDer, parse_nil])
  obtain ⟨cb, cm, cok, ca, earlierMember, certificate, stored⟩ := chain
  have cv : cb.version ≠ 12 := by
    rcases before'.version cb cm cok ca earlierMember with zero | same
    · exact zero.trans_ne (by decide)
    · exact same.trans_ne vv
  have caccepted : cok = true := by
    cases cok with
    | true => rfl
    | false => exact absurd (before'.answered cb cm ca earlierMember).1 cv
  subst caccepted
  obtain ⟨front, middle, inner⟩ := List.append_of_mem earlierMember
  refine ⟨front, cb, cm, ca, middle, vb, vm, va, rear, leaf, ⟨certificate, by simpa [cv] using stored, kind,
    trusted, parsed, ?_, signed⟩, by rw [split, inner]; simp⟩
  rw [hostStr_of_host (origins.host vb vm true va member).symm]
  exact name

/-- In every run that reports an established TLS 1.3 connection, the server is authenticated
exactly when its Finished came behind a CertificateVerify. -/
theorem established13_authenticated_iff (calls : List Call) (established : (after P calls).tls.established = true)
    (v : (after P calls).tls.version ≠ 12) :
    ServerAuthenticated13 P (after P calls) ↔ VerifyFirst (after P calls).log := by
  obtain ⟨entries, present⟩ := history P calls
  have phase := established_phase established
  have origins := present (phase.trans_ne nofun)
  have version : ∀ {b m ok a}, Entry.message b m ok a ∈ (after P calls).log → b.version ≠ 12 := by
    intro b m ok a member
    rcases origins.version b m ok a member with zero | same
    · exact zero.trans_ne (by decide)
    · exact same.trans_ne v
  constructor
  · rintro ⟨-, before⟩ earlier e later split is
    cases e with
    | data => cases is
    | message b m ok a =>
      obtain ⟨bv, kind⟩ : b.version ≠ 12 ∧ octet m 0 = hsFinished := by simpa [Entry.is13] using is
      rw [heard13_iff]
      have accepted : ok = true := by
        cases ok with
        | true => rfl
        | false => exact absurd (origins.answered b m a (by rw [split]; simp)).1 bv
      subst accepted
      obtain ⟨front, cb, cm, ca, middle, vb, vm, va, rear, leaf, signed, inner⟩ :=
        before earlier b m a later split bv kind
      have member : Entry.message vb vm true va ∈ earlier := by
        rw [inner]
        simp
      have logged : Entry.message vb vm true va ∈ (after P calls).log := by
        rw [split]
        exact List.mem_append_left _ member
      exact ⟨vb, vm, true, va, member, version logged, signed.verify⟩
  · intro first
    constructor
    · obtain ⟨b, m, ok, a, member, accepted, same, kind, -⟩ := origins.finished phase
      subst accepted
      exact ⟨b, m, a, member, same.trans_ne v, kind⟩
    · intro earlier b m a later split bv kind
      obtain ⟨before, -, -⟩ := entries earlier _ later split
      rw [← hostStr_of_host (origins.host b m true a (by rw [split]; simp))]
      exact authenticated13_of_verify P (entries.earlier split) before
        ((heard13_iff _ _).mp (first earlier _ later split (by simp [Entry.is13, bv, kind])))

/-- A TLS 1.3 handshake in good order, for `samplePrimitives`. -/
def honest13 : List Framed :=
  [⟨ctHandshake, hello13⟩, ⟨ctHandshake, wrap hsCertificate ([0] ++ be24 130 ++ (be24 125 ++ sampleDer ++ [0, 0]))⟩,
    ⟨ctHandshake, wrap hsCertificateVerify (be16 sigEcdsaSha256 ++ be16 8 ++ [0x30, 6, 2, 1, 1, 2, 1, 1])⟩,
    ⟨ctHandshake, wrap hsFinished (zeros 32)⟩]

theorem honest13_established : (after samplePrimitives (serverSays [honest13])).tls.established = true ∧
      (after samplePrimitives (serverSays [honest13])).tls.version ≠ 12 ∧
      VerifyFirst (after samplePrimitives (serverSays [honest13])).log := by
  decide +kernel

theorem honest13_authenticated :
    ServerAuthenticated13 samplePrimitives (after samplePrimitives (serverSays [honest13])) :=
  (established13_authenticated_iff samplePrimitives (serverSays [honest13]) honest13_established.1
    honest13_established.2.1).mpr honest13_established.2.2

/-- Whatever the network sends: the application keys of an established connection come from our key and the share
of a ServerHello, and a Finished that was taken has shown that the peer has the same secret. -/
theorem established13_keyed (calls : List Call) (established : (after P calls).tls.established = true)
    (v : (after P calls).tls.version ≠ 12) :
    Keyed13 P (after P calls).log (after P calls).tls.clientAp (after P calls).tls.serverAp := by
  have phase := established_phase established
  have h := history P calls
  exact keyed13 P h.entries (h.present (phase.trans_ne nofun)) phase v

theorem honest13_keyed : Keyed13 samplePrimitives (after samplePrimitives (serverSays [honest13])).log
    (after samplePrimitives (serverSays [honest13])).tls.clientAp
    (after samplePrimitives (serverSays [honest13])).tls.serverAp :=
  established13_keyed samplePrimitives (serverSays [honest13]) honest13_established.1 honest13_established.2.1

/-- For any primitives under which the base point is a usable share: a ServerHello and a
Finished, and the client reports a connection that nobody has vouched for. -/
theorem established13_without_certificate : ¬ ∃ P : Primitives, Usable P ∧ ∀ calls,
    (after P calls).tls.established = true → (after P calls).tls.version ≠ 12 →
      ServerAuthenticated13 P (after P calls) := by
  rintro ⟨P, usable, always⟩
  obtain ⟨tcp, t, tcp', -, -, calls, reached⟩ := forged13_reachable P usable
  have authenticated := always calls (by rw [reached]; rfl) (by rw [reached]; exact (show (13 : UInt8) ≠ 12 by decide))
  rw [reached] at authenticated
  obtain ⟨front, cb, cm, ca, middle, vb, vm, va, rear, leaf, signed, split⟩ :=
    authenticated.before [helloEntry13 P (greeted P tcp)] _ _ _ [] rfl (show (13 : UInt8) ≠ 12 by decide) rfl
  -- two messages do not fit in front of the Finished
  have count := congrArg List.length split
  simp only [List.length_cons, List.length_append, List.length_nil] at count
  omega

end BarryOS.Crypto
