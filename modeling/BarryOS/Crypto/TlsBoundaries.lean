import BarryOS.Crypto.TlsAuth12

/-!
# Messages and the records they come in

`handle_handshake` reads one record at a time: a message that goes on in the next record ends
the connection, and where a message is answered with `false` the rest of its record is not
read. So the records matter, unless they end where messages end and every message is taken.
No handler looks at the server's record counter (`handleMessage_alike`), which is all in which
two such readings of the same messages differ.
-/

namespace BarryOS.Crypto

open Lib Session List

variable (P : Primitives) (env : Env)

namespace Tls

/-- The same state with another count of the server's records. -/
def counting (seq : UInt32) (s : Tls) : Tls := { s with serverSeq := seq }

/-- The same answer, and states that differ in that count at most. -/
def Alike (a b : Bool × Tls) : Prop := ∃ seq, b = (a.1, a.2.counting seq)

/-! ## The count is not read -/

/-- What does not look at the count, nor changes it. -/
def Blind {α : Type} (f : Tls → α × Tls) : Prop := ∀ s seq, f (s.counting seq) = ((f s).1, (f s).2.counting seq)

variable (s : Tls) (seq : UInt32)

theorem recordOut_blind (kind : UInt8) (body : Bytes) : Blind (recordOut P kind body) := by
  intro s seq
  show (if s.version = 12 then (s.counting seq).recordOut12 P kind body else
    if (s.clientKeys kind).key.isEmpty then _ else _) = _
  unfold recordOut
  split
  · show (if !s.clientCipher then _ else _) = _
    unfold recordOut12
    split <;> rfl
  · split <;> rfl

theorem sendRecord_blind (kind : UInt8) (body : Bytes) : Blind (sendRecord P env kind body) := by
  intro s seq
  unfold sendRecord
  rw [recordOut_blind]
  cases (s.recordOut P kind body).1 with
  | none => rfl
  | some octets => rfl

theorem sendFinished_blind : Blind (sendFinished P env) := by
  intro s seq
  have sent := sendRecord_blind P env ctHandshake (s.clientFinished P) (s.transcriptUpdate (s.clientFinished P)) seq
  have message : (s.counting seq).clientFinished P = s.clientFinished P := rfl
  have heard : (s.counting seq).transcriptUpdate (s.clientFinished P) =
      (s.transcriptUpdate (s.clientFinished P)).counting seq := rfl
  dsimp only [sendFinished]
  rw [message, heard, sent]
  split <;> rfl

section

variable (body msg : Bytes) (s : Tls) (seq : UInt32)

/-- A choice that does not look at the count. -/
theorem Alike.choice {c : Prop} [Decidable c] {a b a' b' : Bool × Tls} (yes : Alike a a') (no : Alike b b') :
    Alike (if c then a else b) (if c then a' else b') := by
  split
  · exact yes
  · exact no

theorem handleServerHello_alike : Alike (s.handleServerHello P body) ((s.counting seq).handleServerHello P body) := by
  unfold handleServerHello
  split
  · exact ⟨seq, rfl⟩
  · exact .choice ⟨seq, rfl⟩ ⟨0, rfl⟩

theorem handleCertificate_alike (withContext : Bool) :
    Alike (s.handleCertificate body withContext) ((s.counting seq).handleCertificate body withContext) := by
  unfold handleCertificate
  split <;> exact ⟨seq, rfl⟩

theorem handleFinished_alike : Alike (s.handleFinished P env msg) ((s.counting seq).handleFinished P env msg) := by
  -- the application keys start the count over
  have installed : Alike (((s.transcriptUpdate msg).installApplicationKeys P).sendFinished P env)
      (((s.counting seq).transcriptUpdate msg).installApplicationKeys P |>.sendFinished P env) :=
    ⟨0, sendFinished_blind P env ((s.transcriptUpdate msg).installApplicationKeys P) 0⟩
  exact .choice ⟨seq, rfl⟩ (.choice ⟨seq, rfl⟩ (.choice ⟨seq, rfl⟩ installed))

theorem handleHandshake13_alike :
    Alike (s.handleHandshake13 P env msg) ((s.counting seq).handleHandshake13 P env msg) := by
  refine .choice (handleServerHello_alike P (msg.drop 4) (s.transcriptUpdate msg) seq) <|
    .choice (handleCertificate_alike (msg.drop 4) (s.transcriptUpdate msg) seq true) <| .choice ?_ <|
    .choice (handleFinished_alike P env msg s seq) ⟨seq, rfl⟩
  have checked : Alike (s.handleCertificateVerify P (msg.drop 4))
      ((s.counting seq).handleCertificateVerify P (msg.drop 4)) :=
    .choice ⟨seq, rfl⟩ (.choice ⟨seq, rfl⟩ ⟨seq, rfl⟩)
  obtain ⟨seq', same⟩ := checked
  rw [same]
  exact .choice ⟨seq', rfl⟩ ⟨seq', rfl⟩

theorem certificate12_alike : Alike (s.certificate12 P body) ((s.counting seq).certificate12 P body) := by
  obtain ⟨seq', same⟩ := handleCertificate_alike body s seq false
  dsimp only [certificate12]
  rw [same]
  exact .choice ⟨seq', rfl⟩ ⟨seq', rfl⟩

theorem serverKeyExchange12_alike :
    Alike (s.serverKeyExchange12 P env body) ((s.counting seq).serverKeyExchange12 P env body) := by
  unfold serverKeyExchange12
  have chain : (s.counting seq).chain = s.chain := rfl
  rw [chain]
  split
  · exact ⟨seq, rfl⟩
  · exact .choice ⟨seq, rfl⟩ ⟨seq, rfl⟩

theorem handleHandshake12_alike :
    Alike (s.handleHandshake12 P env msg) ((s.counting seq).handleHandshake12 P env msg) := by
  have hello : Alike ((s.transcriptUpdate msg).serverHello12 (msg.drop 4))
      (((s.counting seq).transcriptUpdate msg).serverHello12 (msg.drop 4)) := .choice ⟨seq, rfl⟩ ⟨seq, rfl⟩
  have done : Alike ((s.transcriptUpdate msg).serverHelloDone12 P)
      (((s.counting seq).transcriptUpdate msg).serverHelloDone12 P) := .choice ⟨seq, rfl⟩ ⟨seq, rfl⟩
  have finished : Alike (s.serverFinished12 P msg) ((s.counting seq).serverFinished12 P msg) :=
    .choice ⟨seq, rfl⟩ (.choice ⟨seq, rfl⟩ ⟨seq, rfl⟩)
  exact .choice hello <| .choice (certificate12_alike P (msg.drop 4) (s.transcriptUpdate msg) seq) <|
    .choice (serverKeyExchange12_alike P env (msg.drop 4) (s.transcriptUpdate msg) seq) <|
    .choice ⟨seq, rfl⟩ <| .choice done <| .choice finished ⟨seq, rfl⟩

theorem handleMessage_alike : Alike (s.handleMessage P env msg) ((s.counting seq).handleMessage P env msg) :=
  .choice (handleHandshake12_alike P env msg s seq) (handleHandshake13_alike P env msg s seq)

theorem decideVersion_counting : (s.counting seq).decideVersion msg = (s.decideVersion msg).counting seq := by
  show (if octet msg 0 = hsServerHello && s.version = 0 then _ else _) = _
  unfold decideVersion
  split <;> rfl

end

/-! ## Nor by our flight -/

theorem sendHandshake12_blind (msg : Bytes) : Blind (sendHandshake12 P env msg) := by
  intro s seq
  have sent := sendRecord_blind P env ctHandshake msg (s.transcriptUpdate msg) seq
  have heard : (s.counting seq).transcriptUpdate msg = (s.transcriptUpdate msg).counting seq := rfl
  dsimp only [sendHandshake12]
  rw [heard, sent]
  split <;> rfl

theorem andThen_blind {a b : Tls → Bool × Tls} (first : Blind a) (second : Blind b) : Blind (andThen a b) := by
  intro s seq
  unfold andThen
  rw [first]
  dsimp only
  split
  · exact second _ _
  · rfl

theorem sendEmptyCertificate12_blind : Blind (sendEmptyCertificate12 P env) := by
  intro s seq
  show (if s.hs12.wantClientCert then _ else _) = _
  unfold sendEmptyCertificate12
  split
  · exact sendHandshake12_blind P env _ s seq
  · rfl

theorem sendKeyExchange12_blind : Blind (sendKeyExchange12 P env) := by
  intro s seq
  dsimp only [sendKeyExchange12]
  have same : (s.counting seq).hs12 = s.hs12 := rfl
  rw [same]
  split
  · rfl
  · exact sendHandshake12_blind P env _ s seq

theorem sendChangeCipherSpec12_blind : Blind (sendChangeCipherSpec12 P env) := by
  intro s seq
  dsimp only [sendChangeCipherSpec12]
  rw [sendRecord_blind]
  split <;> rfl

theorem sendFinished12_blind : Blind (sendFinished12 P env) := by
  intro s seq
  dsimp only [sendFinished12]
  have same : (s.counting seq).hs12.finishedVerifyData P labelClientFinished ((s.counting seq).transcriptHash P) =
      s.hs12.finishedVerifyData P labelClientFinished (s.transcriptHash P) := rfl
  rw [same, sendRecord_blind]
  split <;> rfl

theorem sendFlight12_blind : Blind (sendFlight12 P env) :=
  andThen_blind (sendEmptyCertificate12_blind P env) <| andThen_blind (sendKeyExchange12_blind P env) <|
    andThen_blind (sendChangeCipherSpec12_blind P env) (sendFinished12_blind P env)

theorem checkTransport_counting : (s.counting seq).checkTransport = s.checkTransport.counting seq := by
  show (if s.tcp.state = .failed then _ else
    if !s.established && (s.tcp.state = .closed || s.tcp.peerClosed) then _ else _) = _
  unfold checkTransport
  split
  · rfl
  · split <;> rfl

theorem afterDrain_counting : (s.counting seq).afterDrain P env = (s.afterDrain P env).counting seq := by
  have flight := sendFlight12_blind P env { s with step12 := 2 } seq
  show (if s.version = 12 && s.step12 = 1 then
    let r := (({ s with step12 := 2 }).counting seq).sendFlight12 P env
    if r.1 then r.2.checkTransport else r.2 else _) = _
  unfold afterDrain
  split
  · rw [flight]
    dsimp only
    split
    · exact checkTransport_counting _ seq
    · rfl
  · exact checkTransport_counting s seq

end Tls

/-! ## What the server sends -/

/-- What reaches the client, in order: the contents of a handshake record, the server's
ChangeCipherSpec, and the end of a tick. -/
inductive Part where
  | record (plain : Bytes)
  | change
  | pause

/-- How the client takes it. The records are any that open to these contents where they
arrive; a connection that has failed reads no more. -/
inductive Reads : List Part → Session → Session → Prop where
  | done {σ : Session} : Reads [] σ σ
  | failed {σ : Session} {parts : List Part} (ended : σ.tls.phase = .failed) : Reads parts σ σ
  | record {σ τ : Session} {plain : Bytes} {parts : List Part} (r : Framed) (fits : r.Fits)
      (sealed : Option Tls.Seal) (s : Tls) (alive : σ.tls.phase ≠ .failed)
      (other : ¬ (σ.tls.version = 12 ∧ r.kind = ctChangeCipherSpec))
      (opened : σ.tls.openRecord P r.header r.body = (some ⟨ctHandshake, plain, sealed⟩, s))
      (rest : Reads parts (takeRecord P env r σ) τ) : Reads (.record plain :: parts) σ τ
  | change {σ τ : Session} {parts : List Part} (r : Framed) (fits : r.Fits) (alive : σ.tls.phase ≠ .failed)
      (v : σ.tls.version = 12) (kind : r.kind = ctChangeCipherSpec)
      (rest : Reads parts (takeRecord P env r σ) τ) : Reads (.change :: parts) σ τ
  | pause {σ τ : Session} {parts : List Part} (handshaking : σ.tls.phase = .handshaking)
      (rest : Reads parts { σ with tls := σ.tls.afterDrain P env } τ) : Reads (.pause :: parts) σ τ

/-- Every message in a record of its own, and the same octets in other records. -/
inductive SameOctets : List Part → List Part → Prop where
  | nil : SameOctets [] []
  | records (messages plains : List Bytes) (whole : ∀ m ∈ messages, Whole m)
      (same : messages.flatten = plains.flatten) {own others : List Part} (rest : SameOctets own others) :
      SameOctets (messages.map .record ++ own) (plains.map .record ++ others)
  | change {own others : List Part} (rest : SameOctets own others) :
      SameOctets (.change :: own) (.change :: others)
  | pause {own others : List Part} (rest : SameOctets own others) : SameOctets (.pause :: own) (.pause :: others)

/-- The records end where messages end. -/
inductive Grouped : List Part → List Part → Prop where
  | nil : Grouped [] []
  | record (messages : List Bytes) (whole : ∀ m ∈ messages, Whole m) {own others : List Part}
      (rest : Grouped own others) : Grouped (messages.map .record ++ own) (.record messages.flatten :: others)
  | change {own others : List Part} (rest : Grouped own others) : Grouped (.change :: own) (.change :: others)
  | pause {own others : List Part} (rest : Grouped own others) : Grouped (.pause :: own) (.pause :: others)

/-- The certificate of a TLS 1.2 handshake passes, if it is one. -/
def Passing (host msg : Bytes) : Prop :=
  octet msg 0 = hsCertificate → ∀ chain, certificateList (msg.drop 4) false = some chain →
    chainAndNameOk P chain host = true

structure SameOutcome (s t : Tls) : Prop where
  phase : t.phase = s.phase
  transcript : t.transcriptHash P = s.transcriptHash P
  keys13 : t.clientHs = s.clientHs ∧ t.serverHs = s.serverHs ∧ t.clientAp = s.clientAp ∧ t.serverAp = s.serverAp
  keys12 : t.hs12 = s.hs12

/-! ## Sessions up to the count -/

/-- Sessions whose states differ in the count at most. -/
def Near (σ τ : Session) : Prop := ∃ seq, τ.tls = σ.tls.counting seq

theorem Near.refl (σ : Session) : Near σ σ := ⟨σ.tls.serverSeq, rfl⟩

variable {σ τ : Session}

theorem Near.symm (h : Near σ τ) : Near τ σ := by
  obtain ⟨seq, same⟩ := h
  refine ⟨σ.tls.serverSeq, ?_⟩
  rw [same]
  rfl

theorem Near.trans {σ τ υ : Session} (first : Near σ τ) (second : Near τ υ) : Near σ υ := by
  obtain ⟨_, same⟩ := first
  obtain ⟨seq, same'⟩ := second
  refine ⟨seq, ?_⟩
  rw [same', same]
  rfl

theorem Near.phase (h : Near σ τ) : τ.tls.phase = σ.tls.phase := by
  obtain ⟨seq, same⟩ := h
  rw [same]
  rfl

theorem Near.outcome (h : Near σ τ) : SameOutcome P σ.tls τ.tls := by
  obtain ⟨seq, same⟩ := h
  rw [same]
  exact ⟨rfl, rfl, ⟨rfl, rfl, rfl, rfl⟩, rfl⟩

theorem Near.dispatch (h : Near σ τ) (msg : Bytes) :
    (τ.dispatch P env msg).1 = (σ.dispatch P env msg).1 ∧ Near (σ.dispatch P env msg).2 (τ.dispatch P env msg).2 := by
  obtain ⟨seq, same⟩ := h
  obtain ⟨seq', alike⟩ := Tls.handleMessage_alike P env msg (σ.tls.decideVersion msg) seq
  unfold Session.dispatch
  dsimp only
  rw [same, Tls.decideVersion_counting, alike]
  exact ⟨rfl, seq', rfl⟩

theorem Near.afterDrain (h : Near σ τ) :
    Near { σ with tls := σ.tls.afterDrain P env } { τ with tls := τ.tls.afterDrain P env } := by
  obtain ⟨seq, same⟩ := h
  refine ⟨seq, ?_⟩
  rw [same, Tls.afterDrain_counting]

theorem Near.change (h : Near σ τ) {r q : Framed} (v : σ.tls.version = 12)
    (kind : r.kind = ctChangeCipherSpec) (kind' : q.kind = ctChangeCipherSpec) :
    Near (takeRecord P env r σ) (takeRecord P env q τ) := by
  obtain ⟨seq, same⟩ := h
  have v' : τ.tls.version = 12 := by
    rw [same]
    exact v
  unfold takeRecord handleRecord
  rw [if_pos (by simp [v, header_kind, kind]), if_pos (by simp [v', header_kind, kind'])]
  refine ⟨0, ?_⟩
  rw [same]
  rfl

/-! ## Messages one after the other -/

def dispatchAll (messages : List Bytes) (σ : Session) : Session :=
  messages.foldl (fun σ m => (σ.dispatch P env m).2) σ

/-- Every one of the messages is taken. -/
def Taken : List Bytes → Session → Prop
  | [], _ => True
  | m :: messages, σ => (σ.dispatch P env m).1 = true ∧ Taken messages (σ.dispatch P env m).2

theorem Near.dispatchAll (h : Near σ τ) (messages : List Bytes) :
    Near (dispatchAll P env messages σ) (dispatchAll P env messages τ) := by
  induction messages generalizing σ τ with
  | nil => exact h
  | cons m messages ih => exact ih (h.dispatch P env m).2

theorem Near.taken (h : Near σ τ) {messages : List Bytes} (taken : Taken P env messages σ) :
    Taken P env messages τ := by
  induction messages generalizing σ τ with
  | nil => trivial
  | cons m messages ih =>
    obtain ⟨answer, near⟩ := h.dispatch P env m
    exact ⟨answer.trans taken.1, ih near taken.2⟩

section

variable {messages : List Bytes} (whole : ∀ m ∈ messages, Session.Whole m) {σ : Session}
  (taken : Taken P env messages σ)

include whole taken

/-- A record of whole messages that are all taken is read to its end. -/
theorem messages_dispatched (m : Messages) (start : m = ⟨σ, messages.flatten, false⟩) :
    (whileSome (fun m => m.rest.length) (messageStep P env) m).session = dispatchAll P env messages σ := by
  induction messages generalizing σ m with
  | nil =>
    rw [start]
    rfl
  | cons msg messages ih =>
    obtain ⟨long, len⟩ := whole msg mem_cons_self
    obtain ⟨answer, taken⟩ := taken
    have front : be24At (msg ++ messages.flatten) 1 = be24At msg 1 := by
      unfold be24At octet
      simp only [getD_eq_getElem?_getD]
      rw [getElem?_append_left (by omega), getElem?_append_left (by omega), getElem?_append_left (by omega)]
    have step : messageStep P env m = some ⟨(σ.dispatch P env msg).2, messages.flatten, false⟩ := by
      rw [start]
      unfold messageStep
      dsimp only
      rw [flatten_cons, front, ← len, length_append, if_neg (by simp; omega), if_neg (by omega),
        take_left' rfl, drop_left' rfl, answer]
      rfl
    rw [whileSome_next (fun _ _ h => messageStep_shrinks P env h) step]
    exact ih (fun m member => whole m (mem_cons_of_mem _ member)) taken _ rfl

theorem handleHandshake_grouped : σ.handleHandshake P env messages.flatten = dispatchAll P env messages σ :=
  messages_dispatched P env whole taken _ rfl

end

/-- A handshake record hands its contents on, and is counted. -/
theorem takeRecord_opened {r : Framed} {plain : Bytes} {sealed : Option Tls.Seal} {s : Tls}
    (other : ¬ (σ.tls.version = 12 ∧ r.kind = ctChangeCipherSpec))
    (opened : σ.tls.openRecord P r.header r.body = (some ⟨ctHandshake, plain, sealed⟩, s)) :
    takeRecord P env r σ = handleHandshake P env plain ⟨s, σ.log⟩ ∧ Near σ ⟨s, σ.log⟩ := by
  constructor
  · have unchanged : ¬ (σ.tls.version = 12 && octet r.header 0 = ctChangeCipherSpec) = true := by
      rw [Bool.and_eq_true, decide_eq_true_eq, decide_eq_true_eq]
      exact other
    unfold takeRecord handleRecord
    rw [if_neg unchanged, opened]
    dsimp only [deliver]
    rw [if_pos rfl]
  · obtain ⟨seq, counted⟩ := Tls.openRecord_counts P r.header r.body σ.tls
    rw [opened] at counted
    exact ⟨seq, counted⟩

/-! ## Two readings -/

/-- A reading that does not end in failure has not failed anywhere. -/
theorem Reads.alive {parts : List Part} (reads : Reads P env parts σ τ)
    (alive : τ.tls.phase ≠ .failed) : σ.tls.phase ≠ .failed := by
  cases reads with
  | done => exact alive
  | failed ended => exact absurd ended alive
  | record _ _ _ _ alive => exact alive
  | change _ _ alive => exact alive
  | pause handshaking => exact handshaking.trans_ne nofun

/-- A message that leaves the connection alive is taken, if it passes. -/
theorem dispatch_taken {msg : Bytes} (alive : (σ.dispatch P env msg).2.tls.phase ≠ .failed)
    (passing : Passing P σ.tls.hostStr msg) : (σ.dispatch P env msg).1 = true ∧
      (σ.dispatch P env msg).2.tls.hostStr = σ.tls.hostStr := by
  have foot := (dispatch_effect P env msg σ).footprint P env alive
  have host : (σ.tls.decideVersion msg).host = σ.tls.host := by
    unfold Tls.decideVersion
    split <;> rfl
  refine ⟨?_, hostStr_of_host (foot.host.trans host)⟩
  rcases foot.answered with taken | ⟨v, kind⟩
  · exact taken
  -- the certificate of a TLS 1.2 handshake: there is a list, since the connection is alive
  cases list : certificateList (msg.drop 4) false with
  | none =>
    have refused : ((σ.tls.decideVersion msg).handleMessage P env msg).2.phase = .failed := by
      unfold Tls.handleMessage
      rw [if_pos v]
      unfold Tls.handleHandshake12
      rw [kind, if_neg (by decide)]
      unfold Tls.certificate12 Tls.handleCertificate
      rw [list]
      rfl
    exact absurd refused alive
  | some chain =>
    have answer := certificate12_answer P v kind list
      (show (σ.tls.decideVersion msg).handleMessage P env msg = ((σ.dispatch P env msg).1, _) from rfl)
    rw [answer, hostStr_of_host host]
    exact passing kind chain list

theorem afterDrain_hostStr (s : Tls) : (s.afterDrain P env).hostStr = s.hostStr := by
  have checked : ∀ t : Tls, t.checkTransport.host = t.host := by
    intro t
    unfold Tls.checkTransport
    split
    · rfl
    · split <;> rfl
  obtain ⟨⟨_, _, _, _, _, _, _, frame⟩, -⟩ := (Tls.Flown.flies P env).sendFlight12 P env { s with step12 := 2 }
  have flown : (({ s with step12 := 2 }).sendFlight12 P env).2.host = s.host := by
    rw [frame]
  refine hostStr_of_host ?_
  unfold Tls.afterDrain
  split
  · dsimp only
    split
    · exact (checked _).trans flown
    · exact flown
  · exact checked s

/-- Messages in records of their own are taken one after the other. -/
theorem Reads.own {messages : List Bytes} (whole : ∀ m ∈ messages, Whole m) {own : List Part}
    (reads : Reads P env (messages.map .record ++ own) σ τ) (alive : τ.tls.phase ≠ .failed)
    (passing : ∀ m ∈ messages, Passing P σ.tls.hostStr m) : Taken P env messages σ ∧
      (dispatchAll P env messages σ).tls.hostStr = σ.tls.hostStr ∧
      ∃ ρ, Near (dispatchAll P env messages σ) ρ ∧ Reads P env own ρ τ := by
  induction messages generalizing σ with
  | nil => exact ⟨trivial, rfl, σ, .refl σ, reads⟩
  | cons m messages ih =>
    cases reads with
    | failed ended => exact absurd ended alive
    | record r fits sealed s _ other opened rest =>
      obtain ⟨taken, near⟩ := takeRecord_opened P env other opened
      rw [handleHandshake_message P env (whole m mem_cons_self)] at taken
      rw [taken] at rest
      have host : (⟨s, σ.log⟩ : Session).tls.hostStr = σ.tls.hostStr := by
        obtain ⟨seq, same⟩ := near
        rw [same]
        rfl
      obtain ⟨answer, near'⟩ := near.dispatch P env m
      obtain ⟨accepted, same⟩ := dispatch_taken P env (rest.alive P env alive)
        (by rw [host]; exact passing m mem_cons_self)
      obtain ⟨others, host', ρ, behind, reads'⟩ := ih (fun m member => whole m (mem_cons_of_mem _ member)) rest
        (fun q member => by rw [same, host]; exact passing q (mem_cons_of_mem _ member))
      have before := near'.symm
      refine ⟨⟨answer.symm.trans accepted, before.taken P env others⟩, ?_, ρ,
        (near'.dispatchAll P env messages).trans behind, reads'⟩
      obtain ⟨seq, alike⟩ := before.dispatchAll P env messages
      have hosts := congrArg Tls.hostStr alike
      exact hosts.trans (host'.trans (same.trans host))

theorem Grouped.near {own others : List Part} (grouped : Grouped own others) {σ₁ σ₂ τ₁ τ₂ : Session}
    (near : Near σ₁ σ₂) (first : Reads P env own σ₁ τ₁) (alive : τ₁.tls.phase ≠ .failed)
    (passing : ∀ m, Part.record m ∈ own → Passing P σ₁.tls.hostStr m) (second : Reads P env others σ₂ τ₂) :
    Near τ₁ τ₂ := by
  have lives := near.phase.trans_ne (first.alive P env alive)
  induction grouped generalizing σ₁ σ₂ with
  | nil =>
    cases first with
    | done | failed =>
      cases second with
      | done | failed => exact near
  | record messages whole rest ih =>
    obtain ⟨taken, host, ρ, behind, reads⟩ := Reads.own P env whole first alive
      (fun m member => passing m (mem_append_left _ (mem_map_of_mem member)))
    cases second with
    | failed ended => exact absurd ended lives
    | record r fits sealed s _ other opened rest' =>
      obtain ⟨read, counted⟩ := takeRecord_opened P env other opened
      have start := near.trans counted
      rw [handleHandshake_grouped P env whole (start.taken P env taken)] at read
      rw [read] at rest'
      have next := behind.symm.trans (start.dispatchAll P env messages)
      have hosts : ρ.tls.hostStr = σ₁.tls.hostStr := by
        obtain ⟨seq, same⟩ := behind
        rw [same]
        exact host
      exact ih next reads (fun m member => by rw [hosts]; exact passing m (mem_append_right _ member)) rest'
        (next.phase.trans_ne (reads.alive P env alive))
  | change rest ih =>
    cases first with
    | failed ended => exact absurd ended alive
    | change r fits _ v kind reads =>
      cases second with
      | failed ended => exact absurd ended lives
      | change q fits' _ v' kind' reads' =>
        have next := near.change P env v kind kind'
        have host : (takeRecord P env r σ₁).tls.hostStr = σ₁.tls.hostStr := by
          unfold takeRecord handleRecord
          rw [if_pos (by simp [v, header_kind, kind])]
          rfl
        exact ih next reads (fun m member => by rw [host]; exact passing m (mem_cons_of_mem _ member)) reads'
          (next.phase.trans_ne (reads.alive P env alive))
  | pause rest ih =>
    cases first with
    | failed ended => exact absurd ended alive
    | pause handshaking reads =>
      cases second with
      | failed ended => exact absurd ended lives
      | pause handshaking' reads' =>
        have next := near.afterDrain P env
        exact ih next reads (fun m member => by
          rw [show Tls.hostStr _ = σ₁.tls.hostStr from afterDrain_hostStr P env σ₁.tls]
          exact passing m (mem_cons_of_mem _ member)) reads' (next.phase.trans_ne (reads.alive P env alive))

/-- In every reading whose records end where messages end and whose certificates pass, the
records do not matter. -/
theorem grouped_records_same {own others : List Part} (grouped : Grouped own others) {σ τ₁ τ₂ : Session}
    (first : Reads P env own σ τ₁) (established : τ₁.tls.established = true)
    (passing : ∀ m, Part.record m ∈ own → Passing P σ.tls.hostStr m) (second : Reads P env others σ τ₂) :
    SameOutcome P τ₁.tls τ₂.tls :=
  (grouped.near P env (.refl σ) first ((established_phase established).trans_ne nofun) passing second).outcome P

theorem Reads.clear {plain : Bytes} {parts : List Part} (fits : plain ≠ [] ∧ plain.length ≤ recordCap)
    (alive : σ.tls.phase ≠ .failed) (clear : InClear ctHandshake σ.tls)
    (rest : Reads P env parts (takeRecord P env ⟨ctHandshake, plain⟩ σ) τ) :
    Reads P env (.record plain :: parts) σ τ := by
  refine .record ⟨ctHandshake, plain⟩ fits none σ.tls alive (fun is =>
    absurd is.2 (show ctHandshake ≠ ctChangeCipherSpec by decide)) ?_ rest
  unfold Tls.openRecord
  rcases clear with ⟨v, kind⟩ | ⟨v, off, -⟩
  · simp [v, kind, header_kind]
  · simp [v, off, header_kind]

/-- The forged handshake, each message in its record. -/
theorem forged13_read (usable : Usable P) (tcp : Net.Tcp.Tcb) : Reads P wireEnv
    [.record hello13, .record (finished13 P (helloed13 P (greeted P {})))] ⟨greeted P tcp, []⟩
    (takeRecords P wireEnv (forged13 P) ⟨greeted P tcp, []⟩) := by
  have fits := forged13_fits P
  refine .clear P wireEnv (fits _ mem_cons_self) nofun (.inl ⟨show (0 : UInt8) ≠ 12 by decide, by decide⟩) ?_
  unfold takeRecords forged13
  rw [foldl_cons, hello13_taken P usable]
  exact .clear P wireEnv (fits _ (mem_cons_of_mem _ mem_cons_self)) nofun
    (.inl ⟨show (13 : UInt8) ≠ 12 by decide, by decide⟩) .done

theorem forged13_messages (s : Tls) : ∀ m ∈ [hello13, finished13 P s], Whole m := by
  intro m member
  rcases mem_cons.mp member with rfl | member
  · exact hello13_whole
  obtain rfl := mem_singleton.mp member
  exact finished13_whole P s

/-- Both its messages in one record, for `samplePrimitives`. -/
theorem forged13_grouped_same : SameOutcome samplePrimitives
    (takeRecords samplePrimitives wireEnv (forged13 samplePrimitives) ⟨greeted samplePrimitives shaken, []⟩).tls
    (takeRecord samplePrimitives wireEnv
      ⟨ctHandshake, [hello13, finished13 samplePrimitives
        (helloed13 samplePrimitives (greeted samplePrimitives {}))].flatten⟩
      ⟨greeted samplePrimitives shaken, []⟩).tls := by
  have usable : Usable samplePrimitives := fun _ => rfl
  obtain ⟨tcp, -, -, taken⟩ := forged13_taken samplePrimitives usable shaken_talking (by decide)
  have grouped : Grouped
      [.record hello13, .record (finished13 samplePrimitives
        (helloed13 samplePrimitives (greeted samplePrimitives {})))]
      [.record [hello13, finished13 samplePrimitives
        (helloed13 samplePrimitives (greeted samplePrimitives {}))].flatten] :=
    .record _ (forged13_messages samplePrimitives _) .nil
  refine grouped_records_same samplePrimitives wireEnv grouped (forged13_read samplePrimitives usable shaken)
    (by rw [taken]; rfl) (fun m member kind => ?_)
    (.clear samplePrimitives wireEnv ⟨by decide, by decide +kernel⟩ nofun
      (.inl ⟨show (0 : UInt8) ≠ 12 by decide, by decide⟩) .done)
  simp only [mem_cons, Part.record.injEq, not_mem_nil, or_false] at member
  rcases member with rfl | rfl
  · exact absurd kind (by decide)
  · exact absurd kind (show hsFinished ≠ hsCertificate by decide)

/-- A record that ends inside a message ends the connection. -/
theorem handleHandshake_cut {msg : Bytes} (whole : Whole msg) {n : Nat} (long : 4 ≤ n) (cut : n < msg.length)
    (σ : Session) : σ.handleHandshake P env (msg.take n) = { σ with tls := σ.tls.fail 2 } := by
  obtain ⟨-, len⟩ := whole
  have short : (msg.take n).length = n := by
    rw [length_take]
    omega
  have announced : be24At (msg.take n) 1 = be24At msg 1 := by
    unfold be24At octet
    simp only [getD_eq_getElem?_getD, getElem?_take]
    rw [if_pos (by omega), if_pos (by omega), if_pos (by omega)]
  have step : messageStep P env ⟨σ, msg.take n, false⟩ = some ⟨{ σ with tls := σ.tls.fail 2 }, [], true⟩ := by
    unfold messageStep
    rw [announced, short, if_neg (by simp; omega), if_pos (by omega)]
  unfold handleHandshake
  rw [whileSome_next (fun _ _ h => messageStep_shrinks P env h) step, whileSome_done (by simp [messageStep])]

/-- For any primitives under which the base point is a usable share: a Finished that goes on in
a second record is not read. -/
theorem cut_finished_fails : ¬ ∃ P : Primitives, Usable P ∧ ∀ env own others σ τ₁ τ₂, Reachable P σ →
    SameOctets own others → Reads P env own σ τ₁ → τ₁.tls.established = true → Reads P env others σ τ₂ →
      SameOutcome P τ₁.tls τ₂.tls := by
  rintro ⟨P, usable, always⟩
  obtain ⟨tcp, reachable, talking, -⟩ := greeted_reachable P
  obtain ⟨tcp', -, -, taken⟩ := forged13_taken P usable talking (by decide)
  have read := forged13_read P usable tcp
  have messages := forged13_messages P (helloed13 P (greeted P {}))
  have length := finished13_length P (helloed13 P (greeted P {}))
  generalize finished13 P (helloed13 P (greeted P {})) = fin at read messages length
  have octets : SameOctets [.record hello13, .record fin] [.record hello13, .record (fin.take 10),
      .record (fin.drop 10)] :=
    .records [hello13, fin] [hello13, _, _] messages (by simp) .nil
  have clear : InClear ctHandshake (helloed13 P (greeted P tcp)) := .inl ⟨show (13 : UInt8) ≠ 12 by decide, by decide⟩
  have cut : takeRecord P wireEnv ⟨ctHandshake, fin.take 10⟩
      ⟨helloed13 P (greeted P tcp), [helloEntry13 P (greeted P tcp)]⟩ =
      ⟨(helloed13 P (greeted P tcp)).fail 2, [helloEntry13 P (greeted P tcp)]⟩ := by
    rw [takeRecord_clear P wireEnv clear]
    unfold deliver
    exact handleHandshake_cut P wireEnv (messages fin (by simp)) (by decide) (by rw [length]; decide) _
  have split : Reads P wireEnv [.record hello13, .record (fin.take 10), .record (fin.drop 10)] ⟨greeted P tcp, []⟩
      ⟨(helloed13 P (greeted P tcp)).fail 2, [helloEntry13 P (greeted P tcp)]⟩ := by
    refine .clear P wireEnv (forged13_fits P _ mem_cons_self) Phase.noConfusion
      (.inl ⟨show (0 : UInt8) ≠ 12 by decide, by decide⟩) ?_
    rw [hello13_taken P usable]
    refine .clear P wireEnv ⟨?_, ?_⟩ Phase.noConfusion clear ?_
    · exact ne_nil_of_length_pos (by rw [length_take, length]; decide)
    · rw [length_take, length]
      decide
    · rw [cut]
      exact .failed rfl
  have same := always wireEnv _ _ _ _ _ reachable octets read (by rw [taken]; rfl) split
  rw [taken] at same
  exact Phase.noConfusion same.phase

end BarryOS.Crypto
