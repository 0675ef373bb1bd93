import BarryOS.Crypto.TlsAuth12
import BarryOS.Net.TcpStream

/-!
# What goes out for the application

`send` gives TCP one record or nothing (`send_stream`). In TLS 1.3 an established connection has application
keys, so the record is sealed with them. In TLS 1.2 the record is sealed when the client has
sent its ChangeCipherSpec, and `is_established` does not ask for that.
-/

namespace BarryOS.Crypto

open Lib

variable (P : Primitives) (env : Env)

/-- What TCP has to transmit grows by one record, as the record layer puts it together, or it stays. -/
theorem send_stream {data : Bytes} {s : Tls}
    (grown : (s.send P env data).2.tcp.stream ≠ s.tcp.stream) : s.established = true ∧ ∃ out ok,
      (s.recordOut P ctApplicationData data).1 = some out ∧
      (s.send P env data).2.tcp.stream = s.tcp.stream ++ [(out, ok)] := by
  have kept := Tls.recordOut_tcp P ctApplicationData data s
  unfold Tls.send at grown ⊢
  cases established : s.established with
  | false => simp [established] at grown
  | true =>
    simp only [established, Bool.not_true, Bool.false_eq_true, if_false] at grown ⊢
    unfold Tls.sendRecord Tls.handOver at grown ⊢
    cases built : (s.recordOut P ctApplicationData data).1 with
    | none =>
      rw [built] at grown
      exact absurd (congrArg Net.Tcp.Tcb.stream kept) grown
    | some out =>
      rw [built] at grown
      dsimp only at grown ⊢
      rw [kept] at grown ⊢
      by_cases taken : s.tcp.takes out
      · exact ⟨trivial, out, _, rfl, (Net.Tcp.Tcb.send_taken env.tcp taken).2⟩
      · rw [Net.Tcp.Tcb.send_refused env.tcp out s.tcp taken] at grown
        exact absurd rfl grown

/-- One record whose body is the data, sealed under the client's application key. -/
inductive SealedRecord (log : List Entry) (data out : Bytes) : Prop where
  | tls13 (client server : Keys) (seq : UInt32) (ct : Bytes) (keyed : Keyed13 P log client server)
      (encrypted : gcmEncrypt P client.key (nonceFor client.iv seq)
        (recordHeader ctApplicationData (data.length + 1 + 16)) (data ++ [ctApplicationData]) recordCap = some ct)
      (record : out = recordHeader ctApplicationData (data.length + 1 + 16) ++ ct)
  | tls12 (h : Handshake) (seq : UInt32) (ct : Bytes) (keyed : Keyed12 P log h)
      (encrypted : gcmEncrypt P h.clientKey (h.clientIv ++ be64 seq.toUInt64)
        (aad12 seq ctApplicationData data.length) data recordCap = some ct)
      (record : out = recordHeader ctApplicationData (8 + data.length + 16) ++ be64 seq.toUInt64 ++ ct)

variable {log : List Entry}

/-- The data in the clear is no sealed record: it is too short. -/
theorem plainRecord_not_sealed {kind : UInt8} {data out : Bytes}
    (plain : Tls.plainRecord kind data = some out) : ¬ SealedRecord P log data out := by
  have short : out.length = 5 + data.length := by
    unfold Tls.plainRecord at plain
    split at plain
    · cases plain
    cases plain
    rw [List.length_append, recordHeader_length]
  rintro (⟨client, server, seq, ct, -, encrypted, record⟩ | ⟨h, seq, ct, -, encrypted, record⟩)
  · have long := gcmEncrypt_length P encrypted
    have total := congrArg List.length record
    simp only [List.length_append] at long total
    omega
  · have long := gcmEncrypt_length P encrypted
    have total := congrArg List.length record
    simp only [List.length_append] at total
    omega

theorem record13_sealed {data out : Bytes} {s : Tls} (keyed : Keyed13 P log s.clientAp s.serverAp)
    (record : Tls.record13 P (s.call13 ctApplicationData data) = some out) : SealedRecord P log data out := by
  unfold Tls.record13 at record
  split at record
  · cases record
  rename_i ct encrypted
  split at record
  · cases record
  cases record
  exact .tls13 s.clientAp s.serverAp s.clientSeq ct keyed encrypted rfl

theorem record12_sealed {data out : Bytes} {s : Tls} (keyed : Keyed12 P log s.hs12)
    (record : Tls.record12 P ctApplicationData s.clientSeq (s.call12 ctApplicationData data) = some out) :
    SealedRecord P log data out := by
  unfold Tls.record12 at record
  split at record
  · cases record
  rename_i ct encrypted
  dsimp only at record
  split at record
  · cases record
  cases record
  exact .tls12 s.hs12 s.clientSeq ct keyed encrypted rfl

/-- The record that is built on an established connection, sealed unless a 1.2 cipher is not on. -/
theorem recordOut_sealed_iff (calls : List Call) {data out : Bytes}
    (established : (Session.after P calls).tls.established = true)
    (built : ((Session.after P calls).tls.recordOut P ctApplicationData data).1 = some out) :
    SealedRecord P (Session.after P calls).log data out ↔
      ((Session.after P calls).tls.version = 12 → (Session.after P calls).tls.clientCipher = true) := by
  obtain ⟨entries, present⟩ := history P calls
  generalize Session.after P calls = σ at *
  have phase := established_phase established
  have origins := present (phase.trans_ne nofun)
  by_cases v : σ.tls.version = 12
  · cases cipher : σ.tls.clientCipher with
    | true =>
      simp only [Tls.recordOut, Tls.recordOut12, v, cipher] at built
      simp only [implies_true, iff_true]
      exact record12_sealed P (keyed12 P entries origins (origins.flight (.inr (.inr cipher)))) built
    | false =>
      simp only [Tls.recordOut, Tls.recordOut12, v, cipher] at built
      simp only [v, Bool.false_eq_true, imp_false, not_true, iff_false]
      exact plainRecord_not_sealed P built
  · have keyed := keyed13 P entries origins phase v
    have installed : (σ.tls.clientKeys ctApplicationData).key.isEmpty = false := by
      obtain ⟨_, _, _, _, _, _, _, schedule, -⟩ := keyed
      have length := (makeKeys_length P _).1.symm.trans (congrArg (·.key.length) schedule.client).symm
      change σ.tls.clientAp.key.isEmpty = false
      rw [← Bool.not_eq_true, List.isEmpty_iff_length_eq_zero]
      omega
    simp only [Tls.recordOut, if_neg v, installed] at built
    simp only [v, false_implies, iff_true]
    exact record13_sealed P keyed built

/-- In every run, what a `send` gives to TCP is one record, and it is the caller's data sealed under the
key of the connection exactly when, in TLS 1.2, the client's cipher is on. -/
theorem sent_sealed_iff (calls : List Call) (data : Bytes)
    (grown : ((Session.after P calls).tls.send P env data).2.tcp.stream ≠ (Session.after P calls).tls.tcp.stream) :
    ∃ out ok, ((Session.after P calls).tls.send P env data).2.tcp.stream =
        (Session.after P calls).tls.tcp.stream ++ [(out, ok)] ∧
      (SealedRecord P (Session.after P calls).log data out ↔
        ((Session.after P calls).tls.version = 12 → (Session.after P calls).tls.clientCipher = true)) := by
  obtain ⟨established, out, ok, built, given⟩ := send_stream P env grown
  exact ⟨out, ok, given, recordOut_sealed_iff P calls established built⟩

theorem honest12_sends_sealed : ∃ out ok,
    ((Session.after samplePrimitives (serverSays honest12)).tls.send samplePrimitives wireEnv [0x41]).2.tcp.stream =
        (Session.after samplePrimitives (serverSays honest12)).tls.tcp.stream ++ [(out, ok)] ∧
      SealedRecord samplePrimitives (Session.after samplePrimitives (serverSays honest12)).log [0x41] out := by
  obtain ⟨out, ok, given, sealed⟩ :=
    sent_sealed_iff samplePrimitives wireEnv (serverSays honest12) [0x41] (by decide +kernel)
  exact ⟨out, ok, given, sealed.mpr (by decide +kernel)⟩

/-- Whatever the primitives are: behind a ServerHello and a Finished under zeros, the caller's
data goes to TCP in the clear. -/
theorem sends_in_the_clear : ¬ ∃ P : Primitives, ∀ calls data out ok,
    ((Session.after P calls).tls.send P wireEnv data).2.tcp.stream =
      (Session.after P calls).tls.tcp.stream ++ [(out, ok)] → SealedRecord P (Session.after P calls).log data out := by
  rintro ⟨P, always⟩
  obtain ⟨tcp, tcp', talking, calls, reached⟩ := forged12_reachable P
  have takes : tcp'.takes (recordHeader ctApplicationData 1 ++ [0x41]) :=
    ⟨talking.state, by decide, talking.queued.trans_lt (by decide)⟩
  have clear : Tls.plainRecord ctApplicationData [0x41] = some (recordHeader ctApplicationData 1 ++ [0x41]) := rfl
  have given := (Net.Tcp.Tcb.send_taken wireEnv.tcp takes).2
  have sealed := always calls [0x41] (recordHeader ctApplicationData 1 ++ [0x41]) (wireEnv.tcp.sends tcp'.wire.length)
  rw [reached] at sealed
  exact plainRecord_not_sealed P clear (sealed given)

end BarryOS.Crypto
