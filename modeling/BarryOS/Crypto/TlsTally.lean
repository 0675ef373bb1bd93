import BarryOS.Crypto.TlsNonce

/-!
# The numbers of the records

As long as no message makes a handler start the counter over behind a sealed record, the counter
is the number of records sealed under the key in force: the next record gets the number the
server expects, if it has got all those before it.
-/

namespace BarryOS.Crypto

open Lib Tls List

variable (P : Primitives) (env : Env)

/-- The key that seals the application's data. -/
def Tls.applicationKey (s : Tls) : Bytes := if s.version = 12 then s.hs12.clientKey else s.clientAp.key

/-- The counter stands at the number of records sealed with the key. -/
structure InStep (s : Tls) : Prop where
  first : s.sealed = [] → s.clientSeq = 0
  next : s.phase = .established → s.clientSeq = UInt32.ofNat (s.sealed.countP fun c => c.key = s.applicationKey)

/-- In TLS 1.3 our Finished is behind us and what follows is under the application key; in
TLS 1.2 there is the one key. -/
structure Tally (s : Tls) : Prop where
  keyed : s.haveHs = true → s.clientHs.key ≠ []
  first : s.sealed = [] → s.clientSeq = 0
  tls13 : s.version ≠ 12 → s.phase = .established → ∃ finished data, s.sealed = finished :: data ∧
    finished.key ≠ s.clientAp.key ∧ (∀ c ∈ data, c.key = s.clientAp.key) ∧ s.clientSeq = UInt32.ofNat data.length
  tls12 : s.version = 12 → (∀ c ∈ s.sealed, c.key = s.hs12.clientKey) ∧ s.clientSeq = UInt32.ofNat s.sealed.length

variable {s : Tls}

theorem Tally.inStep (h : Tally s) : InStep s := by
  refine ⟨h.first, fun established => ?_⟩
  by_cases v : s.version = 12
  · obtain ⟨keys, seq⟩ := h.tls12 v
    have all : s.sealed.countP (fun c => c.key = s.applicationKey) = s.sealed.length := by
      rw [countP_eq_length]
      intro c member
      simp [applicationKey, v, keys c member]
    rw [all]
    exact seq
  · obtain ⟨finished, data, split, other, keys, seq⟩ := h.tls13 v established
    have all : data.countP (fun c => c.key = s.applicationKey) = data.length := by
      rw [countP_eq_length]
      intro c member
      simp [applicationKey, v, keys c member]
    have front : decide (finished.key = s.applicationKey) = false := by
      simp [applicationKey, v, other]
    rw [split, countP_cons_of_neg (by simpa using front), all]
    exact seq

/-- While nothing has been sealed there is nothing to count. -/
theorem Tally.of_empty (keyed : s.haveHs = true → s.clientHs.key ≠ []) (empty : s.sealed = [])
    (zero : s.clientSeq = 0) (early : s.version ≠ 12 → s.phase ≠ .established) : Tally s where
  keyed := keyed
  first := fun _ => zero
  tls13 := fun v established => absurd established (early v)
  tls12 := fun _ => by simp [empty, zero]

/-- A TLS 1.3 connection that has sealed nothing is not established. -/
theorem Tally.early (h : Tally s) (empty : s.sealed = []) : s.version ≠ 12 → s.phase ≠ .established := by
  intro v established
  obtain ⟨finished, data, split, -⟩ := h.tls13 v established
  rw [empty] at split
  cases split

/-! ## Records out -/

theorem Tally.sendRecord {kind : UInt8} (h : Tally s) (body : Bytes) (ours : kind ≠ ctHandshake) :
    Tally (s.sendRecord P env kind body).2 := by
  obtain ⟨tcp, -, ⟨-, -, same⟩ | ⟨v, on, same⟩ | ⟨v, installed, same⟩⟩ := sendRecord_cases P env kind body s
  · rw [same]
    exact { h with }
  · rw [same]
    obtain ⟨keys, seq⟩ := h.tls12 v
    refine ⟨h.keyed, ?_, fun not => absurd v not, fun _ => ⟨?_, ?_⟩⟩
    · simp [sealing]
    · intro c member
      rcases mem_append.mp member with before | new
      · exact keys c before
      rw [mem_singleton.mp new]
      rfl
    · simp [sealing, seq]
  · rw [same]
    have application : s.clientKeys kind = s.clientAp := if_neg ours
    refine ⟨h.keyed, ?_, fun _ established => ?_, fun is => absurd is v⟩
    · simp [sealing]
    · obtain ⟨finished, data, split, other, keys, seq⟩ := h.tls13 v established
      refine ⟨finished, data ++ [s.call13 kind body], ?_, other, ?_, ?_⟩
      · simp [sealing, split]
      · intro c member
        rcases mem_append.mp member with before | new
        · exact keys c before
        rw [mem_singleton.mp new]
        show (s.clientKeys kind).key = s.clientAp.key
        rw [application]
      · simp [sealing, seq]

/-! ## Our flight in TLS 1.2 -/

/-- A TLS 1.2 client that has sealed nothing and counted nothing. -/
structure Blank12 (s : Tls) : Prop where
  unsealed : Unsealed12 s
  keyed : s.haveHs = true → s.clientHs.key ≠ []
  zero : s.clientSeq = 0

/-- Our Finished is number zero under the new key. -/
theorem Tally.sendFinished12 (h : Tally s) (v : s.version = 12) (empty : s.sealed = []) :
    Tally (s.sendFinished12 P env).2 := by
  have out : ∀ msg, Tally (s.sendRecord P env ctHandshake msg).2 := by
    intro msg
    obtain ⟨tcp, -, ⟨-, -, same⟩ | ⟨-, -, same⟩ | ⟨not, -, -⟩⟩ := sendRecord_cases P env ctHandshake msg s
    · rw [same]
      exact { h with }
    · rw [same]
      refine ⟨h.keyed, by simp [sealing], fun not => absurd v not, fun _ => ?_⟩
      simp [sealing, empty, h.first empty, call12]
    · exact absurd v not
  dsimp only [Tls.sendFinished12]
  split
  · exact { out _ with }
  · exact { out _ with tls13 := fun _ failed => Phase.noConfusion failed }

theorem Blank12.sendFlight12 (h : Blank12 s) : Tally (s.sendFlight12 P env).2 := by
  obtain ⟨_, ⟨_, _, _, _, rfl⟩, clear | finished⟩ := sendFlight12_cases P env h.unsealed.version h.unsealed.off
  · rw [clear]
    exact .of_empty h.keyed h.unsealed.empty h.zero fun v => absurd h.unsealed.version v
  · rw [finished]
    exact Tally.sendFinished12 P env (.of_empty h.keyed h.unsealed.empty rfl fun v => absurd h.unsealed.version v)
      h.unsealed.version h.unsealed.empty

/-! ## Messages in -/

theorem Tally.decided (h : Tally s) (fresh : Fresh s) (msg : Bytes) : Tally (s.decideVersion msg) := by
  unfold decideVersion
  split
  next first =>
    simp only [Bool.and_eq_true, decide_eq_true_eq] at first
    have before := fresh.calls.resolve_right fun h => absurd (first.2.symm.trans h.version) (by decide)
    have empty := (before.undecided first.2).1
    exact .of_empty h.keyed empty (h.first empty) fun _ => h.early empty before.version
  · exact h

theorem Tally.sendFinished (v : s.version ≠ 12) (installed : s.clientHs.key ≠ []) (empty : s.sealed = [])
    (apart : s.clientHs.key ≠ s.clientAp.key) : Tally (s.sendFinished P env).2 := by
  obtain ⟨tcp, -, ⟨-, plain, -⟩ | ⟨is, -, -⟩ | ⟨-, -, same⟩⟩ := sendRecord_cases P env ctHandshake (s.clientFinished P)
    (s.transcriptUpdate (s.clientFinished P))
  · exact absurd (plain v) installed
  · exact absurd is v
  · dsimp only [Tls.sendFinished]
    rw [same]
    split
    · refine ⟨fun _ => installed, ?_, fun _ failed => Phase.noConfusion failed, fun is => absurd is v⟩
      simp [sealing, fail]
    refine ⟨fun _ => installed, ?_, fun _ _ => ?_, fun is => absurd is v⟩
    · simp
    · exact ⟨_, [], by simp [transcriptUpdate, empty]; rfl, apart, by simp, rfl⟩

theorem Tally.message {s t : Tls} {msg : Bytes} {ok : Bool} (h : Tally s) (effect : Effect P env msg s ok t)
    (steady : (Entry.message s msg ok t).steady P = true) : Tally t := by
  simp only [Entry.steady, resets, Bool.and_eq_true, Bool.or_eq_true, decide_eq_true_eq, List.isEmpty_iff] at steady
  obtain ⟨counts, apart⟩ := steady
  cases effect with
  | refused t refused =>
    obtain ⟨⟨_, _, _, _, _, rfl⟩, keys, -⟩ := refused
    refine { h with tls13 := fun _ failed => Phase.noConfusion failed, tls12 := fun v => ?_ }
    rw [keys.1]
    exact h.tls12 v
  | hello v kind share read usable =>
    have empty := counts.resolve_right (by simp [v, kind])
    refine .of_empty (fun _ none => ?_) empty rfl (h.early empty)
    have long := (makeKeys_length P (deriveSecret P (handshakeSecret P (scalarmult P s.priv share)) labelClientHs
      ((s.transcriptUpdate msg).transcriptHash P))).1
    rw [show (makeKeys P _).key = [] from none] at long
    cases long
  | finished v kind keyed mac =>
    have empty := counts.resolve_right (by simp [v, kind])
    have other := apart.resolve_left fun is => is.elim v fun not => not kind
    exact Tally.sendFinished P env v (h.keyed keyed) empty other.symm
  | certificate | verify | other => exact { h with }
  | hello12 v kind g read =>
    have keys := serverHello_keys (msg.drop 4) { s.hs12 with clientRandom := s.clientRandom }
    rw [read] at keys
    refine { h with tls12 := fun v => ?_ }
    rw [show g.clientKey = s.hs12.clientKey from keys.1]
    exact h.tls12 v
  | keyExchange12 v kind leaf parsed g n signed =>
    have keys := serverKeyExchange_keys P (msg.drop 4) leaf.keyAlg leaf.curve leaf.key (s.randomBytes env) s.hs12
    rw [signed] at keys
    refine { h with tls12 := fun v => ?_ }
    rw [show g.clientKey = s.hs12.clientKey from keys.1]
    exact h.tls12 v
  | done12 v kind g derived =>
    have empty := counts.resolve_right (by simp [v, kind])
    exact .of_empty h.keyed empty (h.first empty) (h.early empty)
  | finished12 v kind length mac =>
    exact { h with tls13 := fun not => absurd v not }
  | certificate12 | request12 | other12 => exact { h with }

theorem Tally.sendClientHello (h : Tally s) (handshaking : s.phase = .handshaking) (zero : s.version = 0)
    (empty : s.sealed = []) (unkeyed : s.clientHs.key = []) : Tally (s.sendClientHello P env) := by
  obtain ⟨_, _, _, _, _, _, _, _, _, _, same, early, clear⟩ := sendClientHello_frame P env s handshaking
  obtain ⟨rfl, rfl⟩ := clear (zero.trans_ne (by decide)) unkeyed
  rw [same]
  exact .of_empty h.keyed empty (h.first empty) fun _ => early

/-! ## Every move -/

/-- A move keeps the counter in step, as long as the messages are steady. -/
theorem Tally.move {σ τ : Session} (fresh : σ.log.all (Entry.steady P) = true → Fresh σ.tls)
    (h : σ.log.all (Entry.steady P) = true → Tally σ.tls) (move : Move P σ τ)
    (steady : τ.log.all (Entry.steady P) = true) : Tally τ.tls := by
  cases move with
  | message env msg alive busy =>
    have effect := Session.dispatch_effect P env msg σ
    simp only [Session.dispatch, all_append, all_cons, all_nil, Bool.and_true, Bool.and_eq_true] at steady
    exact ((h steady.1).decided (fresh steady.1) msg).message P env effect steady.2
  | data hdr record o s alive opened kind =>
    simp only [all_append, Bool.and_eq_true] at steady
    have before := h steady.1
    obtain ⟨_, _, _, appended⟩ := appended_frame P opened
    rw [appended]
    exact { before with }
  | flight env v due =>
    have fresh12 := (fresh steady).calls.resolve_left fun h => h.version v
    have empty := fresh12.flight due
    have blank : Blank12 { σ.tls with step12 := 2 } :=
      ⟨⟨v, fresh12.off empty, empty⟩, (h steady).keyed, (h steady).first empty⟩
    exact blank.sendFlight12 P env
  | hello env connecting =>
    have zero := (fresh steady).connecting connecting
    have before := (fresh steady).calls.resolve_right fun h => absurd (zero.symm.trans h.version) (by decide)
    obtain ⟨empty, -, unkeyed, -⟩ := before.undecided zero
    have begun : Tally { σ.tls with phase := .handshaking } :=
      .of_empty (h steady).keyed empty ((h steady).first empty) fun _ => Phase.noConfusion
    exact begun.sendClientHello P env rfl zero empty unkeyed
  | record env kind body ours =>
    refine (h steady).sendRecord P env body ?_
    rcases ours with rfl | rfl
    · decide
    · decide
  | quiet t quiet =>
    have before := h steady
    obtain ⟨⟨phase, _, _, _, _, rfl⟩, ended, -⟩ := quiet
    refine { before with tls13 := fun v established => before.tls13 v ?_ }
    rcases ended with same | failed | closed
    · exact same.symm.trans established
    · cases failed.symm.trans established
    · cases closed.1.symm.trans established
  | restart env host port =>
    dsimp only [start]
    split
    · exact .of_empty Bool.noConfusion rfl rfl fun _ => Phase.noConfusion
    split
    · exact .of_empty Bool.noConfusion rfl rfl fun _ => Phase.noConfusion
    · split <;> exact .of_empty Bool.noConfusion rfl rfl fun _ => Phase.noConfusion

end BarryOS.Crypto
