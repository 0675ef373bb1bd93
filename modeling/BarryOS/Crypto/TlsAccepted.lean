import BarryOS.Crypto.TlsTally
import BarryOS.Net.TcpStream

/-!
# Records and the transport

A record is numbered and sealed before TCP is asked. During the handshake a record that TCP does
not take ends the connection, so that on a connection that lives every sealed record is in the
stream (`Carries`). `send` does not look at the answer.
-/

namespace BarryOS.Crypto

open Lib Net Tls List

variable (P : Primitives) (env : Env)

/-- The octets of a sealed record. -/
def Sealed.Makes (c : Sealed) (record : Bytes) : Prop :=
  record13 P c = some record ∨ ∃ kind seq, record12 P kind seq c = some record

/-- The record was taken by TCP. -/
def Sealed.taken (c : Sealed) (tcp : Tcp.Tcb) : Prop := ∃ record, c.Makes P record ∧ (record, true) ∈ tcp.stream

/-- TCP has taken every record. -/
def Tls.Carried (s : Tls) : Prop := ∀ c ∈ s.sealed, c.taken P s.tcp

/-- The stream goes on, and unless the connection has failed it has taken every new record. -/
structure Carries (s t : Tls) : Prop where
  stream : s.tcp.stream ⊆ t.tcp.stream
  alive : t.phase ≠ .failed → s.phase ≠ .failed
  sealed : t.phase ≠ .failed → ∀ c ∈ t.sealed, c ∈ s.sealed ∨ c.taken P t.tcp

theorem Sealed.taken_mono {c : Sealed} {a b : Tcp.Tcb} (h : c.taken P a) (more : a.stream ⊆ b.stream) :
    c.taken P b := by
  obtain ⟨record, made, queued⟩ := h
  exact ⟨record, made, more queued⟩

theorem Carries.carried {s t : Tls} (h : Carries P s t) (alive : t.phase ≠ .failed)
    (before : s.phase ≠ .failed → s.Carried P) : t.Carried P := by
  intro c member
  rcases h.sealed alive c member with old | new
  · exact Sealed.taken_mono P (before (h.alive alive) c old) h.stream
  · exact new

variable {σ : Session}

namespace Carries

variable {P}

theorem trans {s t u : Tls} (first : Carries P s t) (second : Carries P t u) : Carries P s u := by
  refine ⟨List.Subset.trans first.stream second.stream,
    fun alive => first.alive (second.alive alive), fun alive c member => ?_⟩
  rcases second.sealed alive c member with old | new
  · rcases first.sealed (second.alive alive) c old with older | taken
    · exact .inl older
    · exact .inr (Sealed.taken_mono P taken second.stream)
  · exact .inr new

variable (P)

theorem of_same {s t : Tls} (used : Uses env.tcp s.tcp t.tcp) (same : t.sealed = s.sealed)
    (alive : t.phase ≠ .failed → s.phase ≠ .failed) : Carries P s t :=
  ⟨Tcp.stream_subset_of_uses env.tcp used, alive, fun _ c member => .inl (by rwa [same] at member)⟩

theorem of_failed {s t : Tls} (used : Uses env.tcp s.tcp t.tcp) (failed : t.phase = .failed) : Carries P s t :=
  ⟨Tcp.stream_subset_of_uses env.tcp used, fun alive => absurd failed alive, fun alive => absurd failed alive⟩

/-! ## Records out -/

variable {s : Tls}

theorem sendRecord {kind : UInt8} {body : Bytes} (sent : (s.sendRecord P env kind body).1 = true) :
    Carries P s (s.sendRecord P env kind body).2 := by
  obtain ⟨_, _, _, frame, -⟩ := sendRecord_frame P env kind body s
  have phase : (s.sendRecord P env kind body).2.phase = s.phase := by rw [frame]
  refine ⟨Tcp.stream_subset_of_uses env.tcp (sendRecord_uses P env kind body s), fun alive => phase ▸ alive, ?_⟩
  intro _ c member
  have handed : ∀ octets, (s.recordOut P kind body).1 = some octets →
      (octets, true) ∈ (s.sendRecord P env kind body).2.tcp.stream := by
    intro octets out
    unfold Tls.sendRecord Tls.handOver at sent ⊢
    rw [out] at sent ⊢
    exact Tcp.Tcb.send_true env.tcp sent
  have sealed : (s.sendRecord P env kind body).2.sealed = (s.recordOut P kind body).2.sealed := by
    obtain ⟨_, given, -⟩ := handOver_frame env (s.recordOut P kind body).1 (s.recordOut P kind body).2
    unfold Tls.sendRecord
    rw [given]
  have built : ∃ octets, (s.recordOut P kind body).1 = some octets := by
    unfold Tls.sendRecord Tls.handOver at sent
    split at sent
    · cases sent
    next octets out => exact ⟨octets, out⟩
  obtain ⟨octets, out⟩ := built
  have queued := handed octets out
  rw [sealed] at member
  rcases recordOut_cases P kind body s with ⟨-, -, same⟩ | ⟨-, -, same⟩ | ⟨-, -, same⟩
  · rw [same] at member
    exact .inl member
  · rw [same] at member out
    rcases mem_append.mp member with old | new
    · exact .inl old
    rw [mem_singleton.mp new]
    exact .inr ⟨octets, .inr ⟨kind, s.clientSeq, out⟩, queued⟩
  · rw [same] at member out
    rcases mem_append.mp member with old | new
    · exact .inl old
    rw [mem_singleton.mp new]
    exact .inr ⟨octets, .inl out, queued⟩

theorem flies : Flies P env (Carries P) where
  refl _ := of_same P env (.refl _) rfl id
  trans := trans
  fail _ _ := of_failed P env (.reset _) rfl
  note _ _ := of_same P env (.refl _) rfl id
  on _ := of_same P env (.refl _) rfl id
  sent := sendRecord P env
  unsent kind body code s := of_failed P env (fail_uses env code _ (sendRecord_uses P env kind body s)) rfl

theorem sendClientHello (s : Tls) : Carries P s (s.sendClientHello P env) := by
  have used := sendClientHello_uses P env s
  have before : ∀ t : Tls, t.tcp = s.tcp → t.sealed = s.sealed → t.phase = s.phase → Carries P s t := by
    intro t tcp sealed phase
    refine of_same P env ?_ sealed (fun alive => phase ▸ alive)
    rw [tcp]
    exact .refl _
  unfold Tls.sendClientHello at used ⊢
  dsimp only at used ⊢
  split
  next sent => refine trans (before _ ?_ ?_ ?_) (sendRecord P env sent) <;> rfl
  rename_i unsent
  rw [if_neg unsent] at used
  exact of_failed P env used rfl

theorem sendFinished (alive : s.phase ≠ .failed) : Carries P s (s.sendFinished P env).2 := by
  have used := sendFinished_uses P env s
  have before : Carries P s (s.transcriptUpdate (s.clientFinished P)) := of_same P env (.refl _) rfl id
  unfold Tls.sendFinished at used ⊢
  dsimp only at used ⊢
  split
  next unsent =>
    rw [if_pos unsent] at used
    exact of_failed P env used rfl
  rename_i sent
  have sent : ((s.transcriptUpdate (s.clientFinished P)).sendRecord P env ctHandshake (s.clientFinished P)).1 =
      true := by
    simpa using sent
  have carried := before.trans (sendRecord P env sent)
  refine ⟨carried.stream, fun _ => alive, fun _ => carried.sealed ?_⟩
  obtain ⟨_, _, _, frame, -⟩ := sendRecord_frame P env ctHandshake (s.clientFinished P)
    (s.transcriptUpdate (s.clientFinished P))
  rw [frame]
  exact alive

/-! ## Messages in -/

theorem handleMessage (msg : Bytes) (alive : s.phase ≠ .failed) : Carries P s (s.handleMessage P env msg).2 := by
  have used := handleMessage_uses P env msg s
  have effect := handleMessage_effect P env msg s
  generalize (s.handleMessage P env msg).1 = ok at effect
  generalize (s.handleMessage P env msg).2 = t at effect used
  cases effect with
  | refused t refused =>
    obtain ⟨⟨_, _, _, _, _, rfl⟩, -, -⟩ := refused
    exact of_failed P env used rfl
  | finished v kind keyed mac =>
    have before : Carries P s (finishing P msg s) := of_same P env (.refl _) rfl id
    exact before.trans (sendFinished P env alive)
  | hello | certificate | verify | other | hello12 | certificate12 | keyExchange12 | request12 | done12
  | finished12 | other12 => exact of_same P env used rfl fun _ => alive

theorem dispatch (msg : Bytes) (alive : σ.tls.phase ≠ .failed) : Carries P σ.tls (σ.dispatch P env msg).2.tls := by
  have phase := decideVersion_phase msg σ.tls
  have decided : Carries P σ.tls (σ.tls.decideVersion msg) := by
    refine of_same P env ?_ ?_ (fun _ => alive)
    · rw [decideVersion_rx]
      exact .refl _
    · unfold decideVersion
      split <;> rfl
  exact decided.trans (handleMessage P env msg (phase.trans_ne alive))

theorem follows : Session.Follows P env (Carries P) where
  toFlies := flies P env
  message _ msg alive := dispatch P env msg alive
  theirs _ _ _ _ _ _ := of_same P env (.refl _) rfl id
  ended _ alive := of_same P env (.refl _) rfl fun _ => alive
  reset _ alive := of_same P env (.reset _) rfl fun _ => alive
  tick _ := of_same P env (.tick _) rfl id
  release _ _ := of_same P env (.release _ _) rfl id

end Carries

theorem Session.tick_carries (σ : Session)
    (unresolved : σ.tls.phase = .connecting → ∀ ip, env.dns ≠ .resolved (some ip)) :
    Carries P σ.tls (σ.tick P env).tls := by
  refine tick_follows P env (Carries.follows P env) (fun s connecting => ?_) σ unresolved
  have begun : Carries P s { s with phase := .handshaking } :=
    .of_same P env (.refl _) rfl fun _ => connecting.trans_ne nofun
  exact begun.trans (.sendClientHello P env _)

/-! ## The application's data -/

theorem Keyed13.lengths {log : List Entry} {client server : Keys} (h : Keyed13 P log client server) :
    client.key.length = 16 ∧ client.iv.length = 12 := by
  obtain ⟨_, _, _, _, _, _, _, schedule, -⟩ := h
  rw [schedule.client]
  exact makeKeys_length P _

theorem Keyed12.lengths {log : List Entry} {h : Handshake} (keyed : Keyed12 P log h) :
    h.clientKey.length = 16 ∧ h.clientIv.length = 4 := by
  obtain ⟨_, _, _, db, _, _, _, _, schedule, -⟩ := keyed
  obtain ⟨g, derived, -, key, -, iv, -⟩ := schedule.derived
  rw [← key, ← iv]
  unfold Handshake.deriveKeys at derived
  split at derived
  · cases derived
  cases derived
  simp

section

variable {σ : Session} {data : Bytes} (history : History P σ) (established : σ.tls.established = true)
  (short : data.length ≤ 1431)

include history established short

/-- On an established connection the record for short data can be built, and it fits a segment. -/
theorem recordOut_built : ∃ out, (σ.tls.recordOut P ctApplicationData data).1 = some out ∧
      (out ≠ [] ∧ out.length ≤ Tcp.maxSeg) := by
  have phase := established_phase established
  have origins := history.present (phase.trans_ne nofun)
  have cap : Tcp.maxSeg = 1460 := rfl
  have room : recordCap = 16640 := rfl
  rcases recordOut_cases P ctApplicationData data σ.tls with ⟨-, -, same⟩ | ⟨v, on, same⟩ | ⟨v, -, same⟩
  · rw [same]
    refine ⟨recordHeader ctApplicationData data.length ++ data, if_neg (by omega), by simp [recordHeader], ?_⟩
    rw [length_append, recordHeader_length]
    omega
  · obtain ⟨key, iv⟩ := (keyed12 P history.entries origins (origins.flight (.inr (.inr on)))).lengths
    obtain ⟨ct, encrypted, long⟩ := gcmEncrypt_some P σ.tls.hs12.clientKey
      (σ.tls.hs12.clientIv ++ be64 σ.tls.clientSeq.toUInt64) (aad12 σ.tls.clientSeq ctApplicationData data.length)
      data recordCap (by omega) (by simp [iv]) key
    have built : record12 P ctApplicationData σ.tls.clientSeq (σ.tls.call12 ctApplicationData data) =
        some (recordHeader ctApplicationData (8 + data.length + 16) ++ be64 σ.tls.clientSeq.toUInt64 ++ ct) := by
      simp only [record12, call12, encrypted]
      exact if_neg (by omega)
    rw [same]
    refine ⟨_, built, by simp [recordHeader], ?_⟩
    rw [length_append, length_append, recordHeader_length]
    simp only [be64, length_cons, length_nil]
    omega
  · obtain ⟨key, iv⟩ := (keyed13 P history.entries origins phase v).lengths
    obtain ⟨ct, encrypted, long⟩ := gcmEncrypt_some P σ.tls.clientAp.key
      (nonceFor σ.tls.clientAp.iv σ.tls.clientSeq) (recordHeader ctApplicationData (data.length + 1 + 16))
      (data ++ [ctApplicationData]) recordCap (by simp; omega) (nonceFor_length _ _ iv) key
    have total : ct.length = data.length + 1 + 16 := by simpa using long
    have built : record13 P (σ.tls.call13 ctApplicationData data) =
        some (recordHeader ctApplicationData (data.length + 1 + 16) ++ ct) := by
      have application : σ.tls.clientKeys ctApplicationData = σ.tls.clientAp := rfl
      simp only [record13, call13, application, encrypted]
      exact if_neg (by omega)
    rw [same]
    refine ⟨_, built, by simp [recordHeader], ?_⟩
    rw [length_append, recordHeader_length]
    omega

/-- While TCP is open with room in its queue and frames go out, `send` takes what is not too long. -/
theorem Tls.send_accepted (opened : σ.tls.tcp.state = .established) (room : σ.tls.tcp.queued < Tcp.txSlots)
    (out : env.tcp.sends σ.tls.tcp.wire.length = true) : (σ.tls.send P env data).1 = true := by
  obtain ⟨octets, built, sized⟩ := recordOut_built P history established short
  have answer := (Tcp.Tcb.send_taken env.tcp (⟨opened, sized, room⟩ : σ.tls.tcp.takes octets)).1
  have same := recordOut_tcp P ctApplicationData data σ.tls
  unfold send sendRecord handOver
  rw [established, built]
  simp only [Bool.not_true, Bool.false_eq_true, if_false, same]
  rw [answer, out]

end

end BarryOS.Crypto
