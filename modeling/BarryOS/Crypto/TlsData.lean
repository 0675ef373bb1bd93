import BarryOS.Crypto.TlsAuth13

/-!
# What reaches the application

The receive buffer holds the contents of the application-data records of the log, up to its
size (`received`). Such a record is taken in any phase and, in TLS 1.2, in the clear until the
server's ChangeCipherSpec. `Guarded` is the state a record has to find instead.
-/

namespace BarryOS.Crypto

open Lib List

variable (P : Primitives)

/-- The octets an entry hands to the application. -/
def Entry.contents : Entry → Bytes
  | .message _ _ _ _ => []
  | .data _ o => o.plain

/-- A record that passed AEAD under the server's application key, behind a Finished. -/
inductive Authentic (earlier : List Entry) (o : Tls.Opened) : Prop where
  | tls13 (c : Tls.Seal) (client server : Keys) (sealed : o.sealed = some c)
      (opened : gcmDecrypt P c.key c.nonce c.aad c.data recordCap = some (o.plain ++ [ctApplicationData]))
      (key : c.key = server.key) (keyed : Keyed13 P earlier client server)
  | tls12 (c : Tls.Seal) (h : Handshake) (sealed : o.sealed = some c)
      (opened : gcmDecrypt P c.key c.nonce c.aad c.data recordCap = some o.plain) (key : c.key = h.serverKey)
      (keyed : Keyed12 P earlier h)
      (finished : Heard earlier fun b m ok _ => ok = true ∧ b.version = 12 ∧ octet m 0 = hsFinished)

/-- The buffer holds what authentic records brought, and nothing else. -/
structure DataAuthentic (σ : Session) : Prop where
  received : σ.tls.rx = (σ.log.flatMap Entry.contents).take tlsRxCap
  authentic : ∀ earlier b o later, σ.log = earlier ++ .data b o :: later → Authentic P earlier o

/-- The state a record of application data has to find: an established connection and, in
TLS 1.2, the server's cipher on and the keys derived. -/
def Entry.guarded (earlier : List Entry) : Entry → Bool
  | .message _ _ _ _ => true
  | .data b _ => b.established &&
      (b.version ≠ 12 || b.serverCipher && earlier.any (Entry.is12 hsServerHelloDone))

def Guarded (log : List Entry) : Prop := Chronicle (fun earlier e => e.guarded earlier = true) log

instance (log : List Entry) : Decidable (Guarded log) := inferInstanceAs (Decidable (Chronicle _ log))

/-! ## The buffer -/

theorem appendRx_take (data sofar : Bytes) (s : Tls) (rx : s.rx = sofar.take tlsRxCap) :
    (s.appendRx data).rx = (sofar ++ data).take tlsRxCap := by
  unfold Tls.appendRx
  split
  next full =>
    have long : tlsRxCap ≤ sofar.length := by
      rw [rx, length_take] at full
      omega
    rw [take_append_of_le_length long]
    exact rx
  next room =>
    have short : sofar.length < tlsRxCap := by
      rw [rx, length_take] at room
      omega
    have all : s.rx = sofar := by rw [rx, take_of_length_le (by omega)]
    dsimp only
    rw [all, take_append, take_of_length_le (l := sofar) (by omega)]
    rcases Nat.le_total data.length (tlsRxCap - sofar.length) with fits | cut
    · rw [Nat.min_eq_left fits, take_length, take_of_length_le fits]
    · rw [Nat.min_eq_right cut]

/-- The step: a move adds to the buffer what it adds to the log. -/
theorem received_move {σ τ : Session} (h : σ.tls.rx = (σ.log.flatMap Entry.contents).take tlsRxCap)
    (move : Move P σ τ) : τ.tls.rx = (τ.log.flatMap Entry.contents).take tlsRxCap := by
  cases move with
  | message env msg alive busy =>
    have effect := Session.dispatch_effect P env msg σ
    have same : (σ.dispatch P env msg).2.tls.rx = σ.tls.rx := by
      rw [effect.received]
      unfold Tls.decideVersion
      split <;> rfl
    rw [same, h]
    simp [Session.dispatch, Entry.contents]
  | data hdr record o s alive opened kind =>
    obtain ⟨seq, counted⟩ := Tls.openRecord_counts P hdr record σ.tls
    rw [opened] at counted
    subst counted
    have appended := appendRx_take o.plain (σ.log.flatMap Entry.contents) { σ.tls with serverSeq := seq } h
    rw [appended]
    simp [Entry.contents]
  | flight env v due =>
    obtain ⟨⟨_, _, _, _, _, _, _, frame⟩, -⟩ := (Tls.Flown.flies P env).sendFlight12 P env { σ.tls with step12 := 2 }
    rw [frame]
    exact h
  | hello env connecting =>
    obtain ⟨_, _, _, _, _, _, _, _, _, _, frame, -⟩ :=
      sendClientHello_frame P env { σ.tls with phase := .handshaking } rfl
    rw [frame]
    exact h
  | record env kind body ours =>
    obtain ⟨_, _, _, frame, -⟩ := Tls.sendRecord_frame P env kind body σ.tls
    rw [frame]
    exact h
  | quiet t quiet =>
    obtain ⟨⟨_, _, _, _, _, rfl⟩, -, -⟩ := quiet
    exact h
  | restart env host port =>
    dsimp only [Tls.start]
    split
    · rfl
    split
    · rfl
    · split <;> rfl

theorem received (calls : List Call) : (Session.after P calls).tls.rx =
    ((Session.after P calls).log.flatMap Entry.contents).take tlsRxCap :=
  Session.after_invariant P (fun σ => σ.tls.rx = (σ.log.flatMap Entry.contents).take tlsRxCap) rfl
    (fun _ _ h move => received_move P h move) calls

/-! ## The records -/

theorem authentic_of_guarded {log earlier later : List Entry} {b : Tls} {o : Tls.Opened}
    (entries : Chronicle (Genuine P) log) (guarded : Guarded log)
    (split : log = earlier ++ .data b o :: later) : Authentic P earlier o := by
  obtain ⟨origins, kind, hdr, record, s, opened⟩ := entries earlier _ later split
  have guard := guarded earlier _ later split
  simp only [Entry.guarded, Bool.and_eq_true, Bool.or_eq_true, decide_eq_true_eq] at guard
  obtain ⟨established, under⟩ := guard
  have phase := established_phase established
  cases Tls.openRecord_opens P opened with
  | tls13 c v outer sealed installed key opened =>
    have application : b.serverKeys = b.serverAp := by
      unfold Tls.serverKeys
      rw [established]
      rfl
    rw [kind] at opened
    rw [application] at key
    exact .tls13 c _ _ sealed opened key (keyed13 P (entries.earlier split) origins phase v)
  | tls12 c v on kind sealed key opened =>
    have done := (heard12_iff _ _).mp (under.resolve_left fun not => not v).2
    refine .tls12 c b.hs12 sealed opened key (keyed12 P (entries.earlier split) origins done) ?_
    exact (origins.finished phase).mono fun _ _ _ _ ⟨taken, same, finished, _⟩ => ⟨taken, same.trans v, finished⟩
  | clear off outer same =>
    exfalso
    rcases under with v | ⟨on, -⟩
    · rw [same] at kind
      exact outer v kind
    by_cases v : b.version = 12
    · rw [off v] at on
      cases on
    rw [same] at kind
    exact outer v kind

/-- In every run in which application data finds a guarded connection, every octet the
application is given comes from an authentic record. -/
theorem received_data_authentic (calls : List Call) (guarded : Guarded (Session.after P calls).log) :
    DataAuthentic P (Session.after P calls) :=
  ⟨received P calls, fun _ _ _ _ split => authentic_of_guarded P (history P calls).entries guarded split⟩

/-- A TLS 1.3 handshake and one octet of data, for `samplePrimitives`. -/
def honestData13 : List (List Session.Framed) :=
  [honest13, [⟨ctApplicationData, [0x41, ctApplicationData] ++ zeros 16⟩]]

theorem honestData13_authentic : (Session.after samplePrimitives (serverSays honestData13)).tls.rx = [0x41] ∧
      DataAuthentic samplePrimitives (Session.after samplePrimitives (serverSays honestData13)) :=
  ⟨by decide +kernel, received_data_authentic samplePrimitives (serverSays honestData13) (by decide +kernel)⟩

/-- Whatever the primitives are: a TLS 1.2 ServerHello and a record of data in the clear, and
the application is given its octet. -/
theorem clear_data_received : ¬ ∃ P : Primitives, ∀ calls, DataAuthentic P (Session.after P calls) := by
  rintro ⟨P, always⟩
  obtain ⟨tcp, tcp', calls, reached⟩ := clearData12_reachable P
  have holds := always calls
  rw [reached] at holds
  have authentic := holds.authentic [helloEntry12 (greeted P tcp)] _ _ [] rfl
  rcases authentic with ⟨_, _, _, sealed⟩ | ⟨_, _, sealed⟩
  · cases sealed
  · cases sealed

end BarryOS.Crypto
