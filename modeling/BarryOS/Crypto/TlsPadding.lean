import BarryOS.Crypto.TlsTrust
import BarryOS.Crypto.TlsWire

/-!
# Padded records (crypto/tls.rs)

A TLS 1.3 record may carry zeros behind its type. `drain_tcp` takes the last octet of the plaintext
as the type, so a padded record has type 0, and no handler. What the connection loses is what the
handler of the record would have done.
-/

namespace BarryOS.Crypto

open Lib List

namespace Tls

variable (P : Primitives) (env : Env)

/-- What a TLS 1.3 record holds, under the keys and the counter of a state. -/
def plaintext13 (s : Tls) (hdr record : Bytes) : Option Bytes :=
  if s.serverKeys.key.isEmpty then none
  else gcmDecrypt P s.serverKeys.key (nonceFor s.serverKeys.iv s.serverSeq) hdr record recordCap

/-- One more record has come in. -/
def counted (s : Tls) : Tls := { s with serverSeq := s.serverSeq + 1 }

theorem open13_plaintext {s : Tls} {hdr record front : Bytes} {last : UInt8}
    (plain : s.plaintext13 P hdr record = some (front ++ [last])) :
    ∃ sealed, s.open13 P hdr record = (some ⟨last, front, sealed⟩, s.counted) := by
  unfold plaintext13 at plain
  split at plain
  · cases plain
  rename_i keyed
  simp only [open13, if_neg keyed, plain, List.getLast?_concat, dropLast_concat]
  exact ⟨_, rfl⟩

/-! ## What a handler leaves -/

theorem sendFinished_transcript (s : Tls) : s.transcript.length ≤ (s.sendFinished P env).2.transcript.length := by
  have sent : (s.sendFinished P env).2.transcript = s.transcript ++ s.clientFinished P := by
    dsimp only [sendFinished]
    obtain ⟨_, _, _, frame, -⟩ := sendRecord_frame P env ctHandshake (s.clientFinished P)
      (s.transcriptUpdate (s.clientFinished P))
    rw [frame]
    split <;> rfl
  rw [sent, length_append]
  exact Nat.le_add_right _ _

/-- A message is refused for good, or becomes part of the transcript. -/
theorem Effect.grows {msg : Bytes} {s t : Tls} {ok : Bool} (effect : Effect P env msg s ok t) :
    ok = false ∧ t.phase = .failed ∨ s.transcript.length + msg.length ≤ t.transcript.length := by
  cases effect with
  | refused _ refused =>
    obtain ⟨_, _, _, _, _, rfl⟩ := refused.frame
    exact .inl ⟨rfl, rfl⟩
  | finished _ _ _ _ =>
    refine .inr (Nat.le_trans ?_ (sendFinished_transcript P env (finishing P msg s)))
    simp [finishing, installApplicationKeys, transcriptUpdate]
  | _ =>
    right
    simp [transcriptUpdate, installHandshakeKeys]

end Tls

variable {σ : Session}

namespace Session

variable (P : Primitives) (env : Env)

/-- The loop over messages has left the state it began in. -/
def Left (start : Tls) (m : Messages) : Prop :=
  m.session.tls.phase = .failed ∧ m.stop = true ∨ start.transcript.length < m.session.tls.transcript.length

theorem messageStep_left {start : Tls} {m next : Messages}
    (since : start.transcript.length ≤ m.session.tls.transcript.length)
    (h : messageStep P env m = some next) : Left start next := by
  unfold messageStep at h
  split at h
  · cases h
  dsimp only at h
  split at h
  · cases h
    exact .inl ⟨rfl, rfl⟩
  cases h
  have decided : (m.session.tls.decideVersion (m.rest.take (4 + be24At m.rest 1))).transcript =
      m.session.tls.transcript := by
    unfold Tls.decideVersion
    split <;> rfl
  rcases (dispatch_effect P env (m.rest.take (4 + be24At m.rest 1)) m.session).grows P env with
    ⟨refused, failed⟩ | longer
  · exact .inl ⟨failed, by simp [refused]⟩
  right
  rw [decided, length_take] at longer
  change _ < (m.session.dispatch P env (m.rest.take (4 + be24At m.rest 1))).2.tls.transcript.length
  omega

/-- A record with a message in it is never without effect. -/
theorem handleHandshake_left {data : Bytes} (some : 4 ≤ data.length) :
    (σ.handleHandshake P env data).tls.phase = .failed ∨
      σ.tls.transcript.length < (σ.handleHandshake P env data).tls.transcript.length := by
  have first : messageStep P env ⟨σ, data, false⟩ ≠ none := by
    unfold messageStep
    rw [if_neg (by simpa using some)]
    dsimp only
    split <;> exact Option.some_ne_none _
  obtain ⟨next, step⟩ := Option.ne_none_iff_exists'.mp first
  unfold handleHandshake
  rw [whileSome_next (fun _ _ h => messageStep_shrinks P env h) step]
  have left : Left σ.tls (whileSome (fun m : Messages => m.rest.length) (messageStep P env) next) := by
    refine whileSome_invariant (Left σ.tls) ?_ (messageStep_left P env le_rfl step)
    intro m next left h
    rcases left with ⟨_, stopped⟩ | longer
    · simp [messageStep, stopped] at h
    · exact messageStep_left P env (Nat.le_of_lt longer) h
  exact left.imp And.left id

theorem handleHandshake_short {data : Bytes} (short : data.length < 4) : σ.handleHandshake P env data = σ := by
  unfold handleHandshake
  rw [whileSome_done (by simp [messageStep, short])]

/-- A record whose handler has nothing to do: an unknown type, no whole message header, or no data
that the buffer could still take or miss. -/
def Idle (s : Tls) (kind : UInt8) (content : Bytes) : Prop :=
  kind ≠ ctHandshake ∧ kind ≠ ctAlert ∧ kind ≠ ctApplicationData ∨ kind = ctHandshake ∧ content.length < 4 ∨
    kind = ctApplicationData ∧ if tlsRxCap ≤ s.rx.length then s.rxTruncated = true else content = []

theorem appendRx_same (data : Bytes) (s : Tls) :
    s.appendRx data = s ↔ if tlsRxCap ≤ s.rx.length then s.rxTruncated = true else data = [] := by
  unfold Tls.appendRx
  by_cases full : tlsRxCap ≤ s.rx.length
  · rw [if_pos full, if_pos full]
    constructor
    · intro same
      exact (congrArg Tls.rxTruncated same).symm
    · intro truncated
      rw [← truncated]
  · rw [if_neg full, if_neg full]
    constructor
    · intro same
      have length := congrArg (fun t => t.rx.length) same
      simp only [length_append, length_take] at length
      exact eq_nil_of_length_eq_zero (by omega)
    · rintro rfl
      simp

/-- A handler leaves the state as it is only for a record that is idle. -/
theorem deliver_same_iff {before : Tls} {kind : UInt8} {content : Bytes} {sealed : Option Tls.Seal}
    (alive : σ.tls.phase ≠ .failed) (unclosed : σ.tls.phase ≠ .closed) :
    (deliver P env before ⟨kind, content, sealed⟩ σ).tls = σ.tls ↔ Idle σ.tls kind content := by
  unfold deliver Idle
  split
  next handshake =>
    subst handshake
    simp only [ne_eq, not_true, false_and, true_and, false_or, show ctHandshake ≠ ctApplicationData by decide, or_false]
    constructor
    · intro same
      by_contra long
      rcases handleHandshake_left P env (σ := σ) (not_lt.mp long) with failed | longer
      · rw [same] at failed
        exact alive failed
      rw [same] at longer
      exact Nat.lt_irrefl _ longer
    · intro short
      rw [handleHandshake_short P env short]
  next noHandshake =>
    split
    next alert =>
      subst alert
      simp only [noHandshake, ne_eq, not_true, false_and, and_false, false_or,
        show ctAlert ≠ ctApplicationData by decide]
      refine ⟨fun same => unclosed (congrArg Tls.phase same).symm, False.elim⟩
    next noAlert =>
      split
      next data =>
        subst data
        simp only [noHandshake, ne_eq, not_true, false_and, and_false, true_and, false_or]
        exact appendRx_same content σ.tls
      next noData => simp [noHandshake, noAlert, noData]

theorem deliver_tls (before : Tls) (kind : UInt8) (content : Bytes) (sealed sealed' : Option Tls.Seal) (σ : Session) :
    (deliver P env before ⟨kind, content, sealed⟩ σ).tls = (deliver P env before ⟨kind, content, sealed'⟩ σ).tls := by
  unfold deliver
  split
  · rfl
  split
  · rfl
  · split <;> rfl

theorem handleRecord_plaintext {hdr record front : Bytes} {last : UInt8} (version : σ.tls.version ≠ 12)
    (outer : octet hdr 0 = ctApplicationData) (plain : σ.tls.plaintext13 P hdr record = some (front ++ [last])) :
    ∃ sealed, σ.handleRecord P env hdr record = deliver P env σ.tls ⟨last, front, sealed⟩
      { σ with tls := σ.tls.counted } := by
  obtain ⟨sealed, opened⟩ := Tls.open13_plaintext P plain
  refine ⟨sealed, ?_⟩
  simp [handleRecord, Tls.openRecord, version, outer, opened]

/-- A record has the same effect with padding as without, if and only if there is no padding or the
record would have had no effect at all. -/
theorem padded_same_iff {hdr hdr' record record' content : Bytes} {kind : UInt8} {n : Nat} {σ : Session}
    (version : σ.tls.version ≠ 12) (alive : σ.tls.phase ≠ .failed) (unclosed : σ.tls.phase ≠ .closed)
    (outer : octet hdr 0 = ctApplicationData) (outer' : octet hdr' 0 = ctApplicationData)
    (padded : σ.tls.plaintext13 P hdr record = some (content ++ kind :: List.replicate n 0))
    (plain : σ.tls.plaintext13 P hdr' record' = some (content ++ [kind])) :
    (σ.handleRecord P env hdr record).tls = (σ.handleRecord P env hdr' record').tls ↔
      n = 0 ∨ Idle σ.tls kind content := by
  obtain ⟨sealed', unpadded⟩ := handleRecord_plaintext P env version outer' plain
  rw [unpadded]
  cases n with
  | zero =>
    obtain ⟨sealed, same⟩ := handleRecord_plaintext P env version outer padded
    rw [same]
    exact ⟨fun _ => .inl rfl, fun _ => deliver_tls P env _ _ _ _ _ _⟩
  | succ n =>
    -- the last octet is a zero, and there is no handler for type 0
    have last : content ++ kind :: List.replicate (n + 1) 0 = (content ++ kind :: List.replicate n 0) ++ [0] := by
      rw [replicate_succ', append_assoc, cons_append]
    rw [last] at padded
    obtain ⟨sealed, dropped⟩ := handleRecord_plaintext P env version outer padded
    have silent : (σ.handleRecord P env hdr record).tls = σ.tls.counted := by
      rw [dropped]
      rfl
    rw [silent, eq_comm, or_iff_right (Nat.succ_ne_zero n)]
    exact deliver_same_iff P env (σ := ⟨σ.tls.counted, σ.log⟩) alive unclosed

/-- An established connection whose keys are zeros. -/
def zeroKeyed : Session := { tls := { phase := .established, version := 13, serverAp := ⟨zeros 16, zeros 12⟩ } }

/-- A record of application data under those keys, which leave it as it is. -/
def zeroSealed (plain : Bytes) : Bytes := plain ++ zeros 16

theorem empty_record_padded : (zeroKeyed.handleRecord samplePrimitives wireEnv [23] (zeroSealed [23, 0, 0])).tls =
      (zeroKeyed.handleRecord samplePrimitives wireEnv [23] (zeroSealed [23])).tls :=
  (padded_same_iff samplePrimitives wireEnv (by decide) (by decide) (by decide) rfl rfl
    (show zeroKeyed.tls.plaintext13 samplePrimitives [23] _ = some ([] ++ 23 :: List.replicate 2 0) by decide +kernel)
    (by decide +kernel)).mpr (.inr (.inr (.inr ⟨rfl, by decide⟩)))

/-- An octet of application data is lost behind one octet of padding. -/
theorem padded_data_lost :
    ¬ ∀ (P : Primitives) (env : Env) (hdr hdr' record record' content : Bytes) (kind : UInt8) (n : Nat) (σ : Session),
      σ.tls.version ≠ 12 → σ.tls.phase ≠ .failed → σ.tls.phase ≠ .closed →
      octet hdr 0 = ctApplicationData → octet hdr' 0 = ctApplicationData →
      σ.tls.plaintext13 P hdr record = some (content ++ kind :: List.replicate n 0) →
      σ.tls.plaintext13 P hdr' record' = some (content ++ [kind]) →
      (σ.handleRecord P env hdr record).tls = (σ.handleRecord P env hdr' record').tls := by
  intro all
  have same := all samplePrimitives wireEnv [23] [23] (zeroSealed [0x68, 23, 0]) (zeroSealed [0x68, 23]) [0x68] 23 1
    zeroKeyed (by decide) (by decide) (by decide) rfl rfl (by decide +kernel) (by decide +kernel)
  have rx := congrArg Tls.rx same
  revert rx
  decide +kernel

end Session

end BarryOS.Crypto
