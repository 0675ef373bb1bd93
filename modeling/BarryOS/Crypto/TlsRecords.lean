import BarryOS.Crypto.TlsForged
import BarryOS.Crypto.TlsTrust

/-!
# Records that nobody sealed

Which branch of `drain_tcp` a record takes is decided by its outer type, and the type is not
authenticated. Under a cipher the client should refuse what does not open; it does so for
application data, and for everything but ChangeCipherSpec in TLS 1.2.
-/

namespace BarryOS.Crypto

open Lib Session

variable (P : Primitives) (env : Env)

/-- The server's cipher is in force, in a phase in which `tick` reads records. -/
structure InForce (s : Tls) : Prop where
  reading : s.phase = .handshaking ∨ s.phase = .established
  keyed : if s.version = 12 then s.serverCipher = true else s.serverHs.key ≠ []

/-- The five octets announce the record behind them. -/
def Announces (hdr record : Bytes) : Prop := hdr.length = 5 ∧ (be16At hdr 3).toNat = record.length

/-- The record opens under the key the server has now. -/
def Authenticated (hdr record : Bytes) (s : Tls) : Prop :=
  if s.version = 12 then
    24 ≤ record.length ∧ (gcmDecrypt P s.hs12.serverKey (s.hs12.serverIv ++ record.take 8)
      (aad12 s.serverSeq (octet hdr 0) (record.length - 24)) (record.drop 8) recordCap).isSome = true
  else
    (gcmDecrypt P s.serverKeys.key (nonceFor s.serverKeys.iv s.serverSeq) hdr record recordCap).isSome = true

structure Untouched (s t : Tls) : Prop where
  phase : t.phase = s.phase
  transcript : t.transcript = s.transcript
  keys13 : t.clientHs = s.clientHs ∧ t.serverHs = s.serverHs ∧ t.clientAp = s.clientAp ∧ t.serverAp = s.serverAp
  keys12 : t.hs12 = s.hs12
  seqs : t.clientSeq = s.clientSeq ∧ t.serverSeq = s.serverSeq
  rx : t.rx = s.rx

/-- The connection fails, or nothing has happened. -/
def Harmless (s t : Tls) : Prop := t.phase = .failed ∨ Untouched s t

/-- The types whose records have to be authentic to be of any effect. -/
def Refusing (kind : UInt8) (s : Tls) : Prop :=
  if s.version = 12 then kind = ctChangeCipherSpec → s.serverSeq = 0
  else kind ≠ ctAlert ∧ kind ≠ ctHandshake

theorem Untouched.refl (s : Tls) : Untouched s s := ⟨rfl, rfl, ⟨rfl, rfl, rfl, rfl⟩, rfl, ⟨rfl, rfl⟩, rfl⟩

variable {s : Tls}

theorem InForce.alive (h : InForce s) : s.phase ≠ .failed := by
  rcases h.reading with phase | phase
  · exact phase.trans_ne nofun
  · exact phase.trans_ne nofun

/-! ## What is refused -/

variable {hdr record : Bytes}

theorem open12_unauthenticated (v : s.version = 12)
    (forged : ¬ Authenticated P hdr record s) : (s.open12 P hdr record).1 = none := by
  unfold Authenticated at forged
  rw [if_pos v] at forged
  unfold Tls.open12
  split
  · rfl
  dsimp only
  cases opened : gcmDecrypt P s.hs12.serverKey (s.hs12.serverIv ++ record.take 8)
      (aad12 s.serverSeq (octet hdr 0) (record.length - 24)) (record.drop 8) recordCap with
  | none => rfl
  | some plain => exact absurd ⟨by omega, by rw [opened]; rfl⟩ forged

theorem open13_unauthenticated (v : s.version ≠ 12)
    (forged : ¬ Authenticated P hdr record s) : (s.open13 P hdr record).1 = none := by
  unfold Authenticated at forged
  rw [if_neg v] at forged
  dsimp only [Tls.open13]
  split
  · rfl
  cases opened : gcmDecrypt P s.serverKeys.key (nonceFor s.serverKeys.iv s.serverSeq) hdr record recordCap with
  | none => rfl
  | some plain => exact absurd (by rw [opened]; rfl) forged

variable {σ : Session}

/-- A record that does not open ends the connection. -/
theorem handleRecord_unopened (other : ¬ (σ.tls.version = 12 && octet hdr 0 = ctChangeCipherSpec) = true)
    (unopened : (σ.tls.openRecord P hdr record).1 = none) : (σ.handleRecord P env hdr record).tls.phase = .failed := by
  unfold handleRecord
  rw [if_neg other]
  obtain ⟨s, opened⟩ : ∃ s, σ.tls.openRecord P hdr record = (none, s) := ⟨_, Prod.ext unopened rfl⟩
  rw [opened]
  rfl

theorem handleRecord_clear (v : σ.tls.version ≠ 12) (kind : octet hdr 0 ≠ ctApplicationData) :
    σ.handleRecord P env hdr record = deliver P env σ.tls ⟨octet hdr 0, record, none⟩ σ := by
  unfold handleRecord Tls.openRecord
  rw [if_neg (by simp [v]), if_neg (by simp [v]), if_neg (by simp [kind])]

theorem refused12 (v : σ.tls.version = 12) (on : σ.tls.serverCipher = true)
    (refusing : octet hdr 0 = ctChangeCipherSpec → σ.tls.serverSeq = 0)
    (forged : ¬ Authenticated P hdr record σ.tls) : Harmless σ.tls (σ.handleRecord P env hdr record).tls := by
  by_cases change : octet hdr 0 = ctChangeCipherSpec
  · have taken : σ.handleRecord P env hdr record =
        { σ with tls := { σ.tls with serverCipher := true, serverSeq := 0 } } := by
      unfold handleRecord
      rw [if_pos (by simp [v, change])]
    rw [taken]
    exact .inr { Untouched.refl σ.tls with seqs := ⟨rfl, (refusing change).symm⟩ }
  · refine .inl (handleRecord_unopened P env (by simp [change]) ?_)
    unfold Tls.openRecord
    rw [if_pos (by simp [v, on])]
    exact open12_unauthenticated P v forged

theorem refused13 (v : σ.tls.version ≠ 12) (refusing : octet hdr 0 ≠ ctAlert ∧ octet hdr 0 ≠ ctHandshake)
    (forged : ¬ Authenticated P hdr record σ.tls) : Harmless σ.tls (σ.handleRecord P env hdr record).tls := by
  by_cases data : octet hdr 0 = ctApplicationData
  · refine .inl (handleRecord_unopened P env (by simp [v]) ?_)
    unfold Tls.openRecord
    rw [if_neg (by simp [v]), if_pos (by simp [v, data])]
    exact open13_unauthenticated P v forged
  rw [handleRecord_clear P env v data]
  unfold deliver
  rw [if_neg refusing.2, if_neg refusing.1, if_neg data]
  exact .inr (.refl _)

/-! ## What is not -/

theorem short_unauthenticated (short : record.length < 16) : ¬ Authenticated P hdr record s := by
  unfold Authenticated
  split
  · omega
  unfold gcmDecrypt
  rw [if_pos (by simp [short])]
  decide

theorem announces_framed (r : Framed) (fits : r.Fits) : Announces r.header r.body :=
  ⟨rfl, header_len r fits⟩

/-- A message of no known type in the clear goes into the transcript. -/
theorem clear_message_heard (hdr : Bytes) (v : σ.tls.version ≠ 12) (kind : octet hdr 0 = ctHandshake) :
    (σ.handleRecord P env hdr [0xFE, 0, 0, 0]).tls = σ.tls.transcriptUpdate [0xFE, 0, 0, 0] := by
  have whole : Whole [0xFE, 0, 0, 0] := ⟨by decide, by decide⟩
  have undecided : σ.tls.decideVersion [0xFE, 0, 0, 0] = σ.tls := rfl
  rw [handleRecord_clear P env v (by rw [kind]; decide)]
  unfold deliver
  rw [if_pos kind, handleHandshake_message P env whole]
  unfold dispatch
  dsimp only
  rw [undecided]
  unfold Tls.handleMessage
  rw [if_neg v]
  rfl

theorem clear_alert_closes (hdr record : Bytes) (v : σ.tls.version ≠ 12)
    (kind : octet hdr 0 = ctAlert) : (σ.handleRecord P env hdr record).tls.phase = .closed := by
  rw [handleRecord_clear P env v (by rw [kind]; decide)]
  unfold deliver
  rw [if_neg (show ¬ octet hdr 0 = ctHandshake by rw [kind]; decide), if_pos (show octet hdr 0 = ctAlert from kind)]

/-- A ChangeCipherSpec starts the server's counter over. -/
theorem change_counted (hdr record : Bytes) (v : σ.tls.version = 12)
    (kind : octet hdr 0 = ctChangeCipherSpec) : σ.handleRecord P env hdr record =
      { σ with tls := { σ.tls with serverCipher := true, serverSeq := 0 } } := by
  unfold handleRecord
  rw [if_pos (by simp [v, kind])]

/-- The alert is not harmless. -/
theorem clear_alert_harms (v : σ.tls.version ≠ 12) (force : InForce σ.tls) (hdr record : Bytes)
    (kind : octet hdr 0 = ctAlert) : ¬ Harmless σ.tls (σ.handleRecord P env hdr record).tls := by
  have closes := clear_alert_closes P env hdr record v kind
  rintro (failed | same)
  · rw [closes] at failed
    cases failed
  · have phase := closes.symm.trans same.phase
    rcases force.reading with reading | reading
    · rw [reading] at phase
      cases phase
    rw [reading] at phase
    cases phase

/-- For every state under the cipher and every type of record: no record that is not authentic
has an effect exactly when the type is one the client refuses. -/
theorem unauthenticated_harmless_iff (σ : Session) (kind : UInt8) (force : InForce σ.tls) :
    (∀ hdr record, Announces hdr record → octet hdr 0 = kind → ¬ Authenticated P hdr record σ.tls →
      Harmless σ.tls (σ.handleRecord P env hdr record).tls) ↔ Refusing kind σ.tls := by
  have keyed := force.keyed
  have announced : ∀ body : Bytes, body ≠ [] → body.length < 16 → Announces (recordHeader kind body.length) body ∧
        ¬ Authenticated P (recordHeader kind body.length) body σ.tls := by
    intro body some' short
    have room : (16 : Nat) ≤ recordCap := by decide
    exact ⟨announces_framed ⟨kind, body⟩ ⟨some', show body.length ≤ recordCap by omega⟩,
      short_unauthenticated P short⟩
  by_cases v : σ.tls.version = 12
  · rw [if_pos v] at keyed
    unfold Refusing
    rw [if_pos v]
    constructor
    · intro harmless change
      obtain ⟨announces, forged⟩ := announced [1] (by decide) (by decide)
      have same := harmless (recordHeader kind 1) [1] announces rfl forged
      rw [change_counted P env (recordHeader kind 1) [1] v change] at same
      exact (same.resolve_left force.alive).seqs.2.symm
    · intro refusing hdr record _ is forged
      exact refused12 P env v keyed (fun change => refusing (is.symm.trans change)) forged
  · unfold Refusing
    rw [if_neg v]
    constructor
    · intro harmless
      constructor
      · intro alert
        obtain ⟨announces, forged⟩ := announced [1, 0] (by decide) (by decide)
        exact clear_alert_harms P env v force (recordHeader kind 2) [1, 0] alert (harmless _ _ announces rfl forged)
      · intro handshake
        obtain ⟨announces, forged⟩ := announced [0xFE, 0, 0, 0] (by decide) (by decide)
        have same := harmless (recordHeader kind 4) [0xFE, 0, 0, 0] announces rfl forged
        rw [clear_message_heard P env (recordHeader kind 4) v handshake] at same
        have length := congrArg List.length (same.resolve_left force.alive).transcript
        simp [Tls.transcriptUpdate] at length
    · intro refusing hdr record _ is forged
      exact refused13 P env v (is ▸ refusing) forged

/-- Two octets of application data that nobody sealed, in TLS 1.2 under the cipher. -/
theorem data_under_cipher_harmless : Harmless { phase := .established, version := 12, serverCipher := true }
      (handleRecord samplePrimitives wireEnv (recordHeader ctApplicationData 2) [0x41, 0x42]
        ⟨{ phase := .established, version := 12, serverCipher := true }, []⟩).tls :=
  (unauthenticated_harmless_iff samplePrimitives wireEnv
    ⟨{ phase := .established, version := 12, serverCipher := true }, []⟩ ctApplicationData
    ⟨.inr rfl, rfl⟩).mpr (fun change => absurd change (by decide)) (recordHeader ctApplicationData 2) [0x41, 0x42]
    ⟨rfl, by decide⟩ rfl (short_unauthenticated samplePrimitives (by decide))

/-- For any primitives under which the base point is a usable share: in a connection that
reports itself established, an alert in the clear is taken for the server's goodbye. -/
theorem clear_alert_counts : ¬ ∃ P : Primitives, Usable P ∧ ∀ env calls hdr record,
    InForce (after P calls).tls → Announces hdr record → ¬ Authenticated P hdr record (after P calls).tls →
      Harmless (after P calls).tls ((after P calls).handleRecord P env hdr record).tls := by
  rintro ⟨P, usable, always⟩
  obtain ⟨tcp, t, tcp', -, -, calls, reached⟩ := forged13_reachable P usable
  have keyed : (helloed13 P (greeted P tcp)).serverHs.key ≠ [] :=
    List.ne_nil_of_length_pos (by rw [helloed13_serverHs]; decide)
  have force : InForce (after P calls).tls := by
    rw [reached]
    exact ⟨.inr rfl, keyed⟩
  have v : (after P calls).tls.version ≠ 12 := by
    rw [reached]
    exact (show (13 : UInt8) ≠ 12 by decide)
  refine clear_alert_harms P wireEnv v force (recordHeader ctAlert 2) [1, 0] rfl (always wireEnv calls _ _ force ?_ ?_)
  · exact announces_framed ⟨ctAlert, [1, 0]⟩ ⟨by decide, by decide⟩
  · exact short_unauthenticated P (by decide)

end BarryOS.Crypto
