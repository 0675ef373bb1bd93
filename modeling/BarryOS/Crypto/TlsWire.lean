import BarryOS.Crypto.TlsMoves
import BarryOS.Net.TcpPending

/-!
# From the wire to the handlers

The two loops that read what has arrived end of themselves. A sequence of whole records in
the receive ring is therefore handled record by record (`drainTcp_records`), and a record with
one message in it is that message dispatched (`handleRecord_message`).
-/

namespace BarryOS.Crypto

open Lib Net Tcp Session Tls

variable (P : Primitives) (env : Env) {σ : Session}

namespace Session

/-! ## The loops end -/

theorem messageStep_shrinks {m next : Messages} (h : messageStep P env m = some next) :
    next.rest.length < m.rest.length := by
  unfold messageStep at h
  split at h
  · cases h
  rename_i more
  simp only [Bool.or_eq_true, decide_eq_true_eq] at more
  dsimp only at h
  split at h
  · cases h
    simp only [List.length_nil]
    omega
  cases h
  simp only [List.length_drop]
  omega

/-- What has arrived is still there, or all of it has been given up. -/
def Untaken (σ τ : Session) : Prop := τ.tls.tcp.rx = σ.tls.tcp.rx ∨ τ.tls.tcp.rxLen = 0

theorem Untaken.refl (σ : Session) : Untaken σ σ := .inl rfl

theorem Untaken.trans {τ υ : Session} (first : Untaken σ τ) (second : Untaken τ υ) : Untaken σ υ := by
  rcases second with same | gone
  · rcases first with same' | gone
    · exact .inl (same.trans same')
    have head : υ.tls.tcp.rxHead = τ.tls.tcp.rxHead := congrArg RxView.rxHead same
    have tail : υ.tls.tcp.rxTail = τ.tls.tcp.rxTail := congrArg RxView.rxTail same
    refine .inr ?_
    rw [Tcb.rxLen, head, tail]
    exact gone
  · exact .inr gone

theorem reset_rxLen (tcp : Tcb) : tcp.reset.rxLen = 0 := by
  simp [Tcb.reset, Tcb.rxLen]

theorem dispatch_untaken (msg : Bytes) (σ : Session) : Untaken σ (σ.dispatch P env msg).2 := by
  rcases (dispatch_effect P env msg σ).rx P env with same | ⟨tcp, reset⟩
  · rw [decideVersion_rx] at same
    exact .inl same
  refine .inr ?_
  rw [reset]
  exact reset_rxLen tcp

theorem handleHandshake_untaken (data : Bytes) (σ : Session) : Untaken σ (σ.handleHandshake P env data) := by
  refine whileSome_invariant (fun m : Messages => Untaken σ m.session) (fun m next held h => ?_) (Untaken.refl σ)
  unfold messageStep at h
  split at h
  · cases h
  dsimp only at h
  split at h
  · cases h
    exact held.trans (.inr (reset_rxLen _))
  cases h
  exact held.trans (dispatch_untaken P env _ _)

theorem handleRecord_untaken (hdr record : Bytes) (σ : Session) : Untaken σ (σ.handleRecord P env hdr record) := by
  unfold handleRecord
  split
  · exact .inl rfl
  obtain ⟨seq, counted⟩ := openRecord_counts P hdr record σ.tls
  split
  · exact .inr (reset_rxLen _)
  rename_i o s opened
  rw [opened] at counted
  subst counted
  unfold deliver
  split
  · exact handleHandshake_untaken P env o.plain { σ with tls := { σ.tls with serverSeq := seq } }
  split
  · exact .inr (reset_rxLen _)
  split
  · obtain ⟨_, _, appended⟩ := appendRx_frame o.plain { σ.tls with serverSeq := seq }
    rw [appended]
    exact .inl rfl
  · exact .inl rfl

theorem Untaken.rxLen_le {τ : Session} (h : Untaken σ τ) : τ.tls.tcp.rxLen ≤ σ.tls.tcp.rxLen := by
  rcases h with same | gone
  · have head : τ.tls.tcp.rxHead = σ.tls.tcp.rxHead := congrArg RxView.rxHead same
    have tail : τ.tls.tcp.rxTail = σ.tls.tcp.rxTail := congrArg RxView.rxTail same
    rw [Tcb.rxLen, Tcb.rxLen, head, tail]
  rw [gone]
  exact Nat.zero_le _

theorem drainStep_shrinks {d next : Drain} (h : drainStep P env d = some next) : next.size < d.size := by
  dsimp only [drainStep] at h
  split at h
  · cases h
  rename_i more
  simp only [Bool.or_eq_true, not_or] at more
  split at h
  · cases h
    simp only [Drain.size, more.1, reset_rxLen, fail, if_true, Bool.false_eq_true, if_false]
    omega
  split at h
  · cases h
  cases h
  have le := (handleRecord_untaken P env (d.session.tls.tcp.rxReadAt d.consumed 5)
    (d.session.tls.tcp.rxReadAt (d.consumed + 5) (be16At (d.session.tls.tcp.rxReadAt d.consumed 5) 3).toNat)
    d.session).rxLen_le
  simp only [Drain.size]
  split <;> omega

/-! ## Whole records -/

/-- A record as it stands on the wire: its type and its body. -/
structure Framed where
  kind : UInt8
  body : Bytes

def Framed.header (r : Framed) : Bytes := recordHeader r.kind r.body.length

def Framed.octets (r : Framed) : Bytes := r.header ++ r.body

/-- A length the client takes. -/
def Framed.Fits (r : Framed) : Prop := r.body ≠ [] ∧ r.body.length ≤ recordCap

def takeRecord (r : Framed) (σ : Session) : Session := σ.handleRecord P env r.header r.body

def takeRecords (rs : List Framed) (σ : Session) : Session := rs.foldl (fun σ r => takeRecord P env r σ) σ

/-- No record of the sequence ends the connection or gives up what is left. -/
def Lasts : List Framed → Session → Prop
  | [], _ => True
  | r :: rs, σ => (takeRecord P env r σ).tls.phase ≠ .failed ∧
      (takeRecord P env r σ).tls.tcp.rx = σ.tls.tcp.rx ∧ Lasts rs (takeRecord P env r σ)

theorem Lasts.rx {rs : List Framed} (lasts : Lasts P env rs σ) :
    (takeRecords P env rs σ).tls.tcp.rx = σ.tls.tcp.rx := by
  induction rs generalizing σ with
  | nil => rfl
  | cons r rs ih =>
    obtain ⟨-, same, rest⟩ := lasts
    exact (ih rest).trans same

variable (r : Framed)

theorem header_length : r.header.length = 5 := rfl

theorem header_len (fits : r.Fits) : (be16At r.header 3).toNat = r.body.length := by
  have bound : r.body.length < 65536 := Nat.lt_of_le_of_lt fits.2 (by decide)
  have value : be16At r.header 3 = UInt16.ofNat r.body.length := be16At_be16 (UInt16.ofNat r.body.length) []
  rw [value, UInt16.toNat_ofNat', Nat.mod_eq_of_lt bound]

theorem drain_records (rs : List Framed) (fits : ∀ r ∈ rs, r.Fits) (d : Drain) (going : d.stop = false)
    (pending : d.session.tls.tcp.pending.drop d.consumed = rs.flatMap Framed.octets)
    (lasts : Lasts P env rs d.session) : whileSome Drain.size (drainStep P env) d = ⟨takeRecords P env rs d.session,
        d.consumed + (rs.flatMap Framed.octets).length, false⟩ := by
  induction rs generalizing d with
  | nil =>
    have stopped : drainStep P env d = none := by
      dsimp only [drainStep]
      rw [Tcb.rxReadAt_pending, pending]
      simp
    rw [whileSome_done stopped]
    obtain ⟨session, consumed, stop⟩ := d
    obtain rfl : stop = false := going
    rfl
  | cons r rs ih =>
    obtain ⟨alive, kept, lasts⟩ := lasts
    have fit := fits r List.mem_cons_self
    have len : (d.session.tls.tcp.pending.drop d.consumed).length = d.session.tls.tcp.rxLen - d.consumed := by
      simp
    rw [pending, List.flatMap_cons, Framed.octets] at len
    have hdr : d.session.tls.tcp.rxReadAt d.consumed 5 = r.header := by
      rw [Tcb.rxReadAt_pending, pending, List.flatMap_cons, Framed.octets, List.append_assoc,
        List.take_left' (header_length r)]
    have body : d.session.tls.tcp.rxReadAt (d.consumed + 5) r.body.length = r.body := by
      rw [Tcb.rxReadAt_pending, ← List.drop_drop, pending, List.flatMap_cons, Framed.octets,
        List.append_assoc, List.drop_left' (header_length r), List.take_left' rfl]
    have taken : drainStep P env d = some ⟨takeRecord P env r d.session, d.consumed + 5 + r.body.length, false⟩ := by
      dsimp only [drainStep]
      rw [hdr, header_len r fit, body, going, header_length]
      have some' : r.body.length ≠ 0 := fun none => fit.1 (List.eq_nil_of_length_eq_zero none)
      have within : r.body.length ≤ recordCap := fit.2
      simp only [List.length_append, header_length] at len
      rw [if_neg (by decide), if_neg (by simp [some', within]), if_neg (by omega)]
      have ended : ¬ (takeRecord P env r d.session).tls.phase = .failed := alive
      simp only [takeRecord] at ended ⊢
      simp [ended]
    rw [whileSome_next (fun _ _ h => drainStep_shrinks P env h) taken,
      ih (fun q member => fits q (List.mem_cons_of_mem _ member)) _ rfl ?_ lasts]
    · simp only [List.flatMap_cons, Framed.octets, List.length_append, header_length]
      congr 1
      omega
    · rw [Tcb.pending_of_rx kept, Nat.add_assoc, ← List.drop_drop, pending]
      exact List.drop_left' (by simp [Framed.octets, header_length])

/-- Whole records that have arrived are handled one after the other, and released. -/
theorem drainTcp_records (rs : List Framed) (fits : ∀ r ∈ rs, r.Fits) (σ : Session)
    (pending : σ.tls.tcp.pending = rs.flatMap Framed.octets) (lasts : Lasts P env rs σ) :
    ∃ τ, τ = takeRecords P env rs σ ∧ σ.drainTcp P env = { τ with
      tls := { τ.tls with tcp := τ.tls.tcp.rxRelease env.tcp (rs.flatMap Framed.octets).length } } := by
  have drained := drain_records P env rs fits ⟨σ, 0, false⟩ rfl (by simpa using pending) lasts
  refine ⟨_, rfl, ?_⟩
  dsimp only [drainTcp]
  rw [drained]
  simp

/-! ## Records in the clear -/

/-- The client takes a record of this type as it stands. -/
def InClear (kind : UInt8) (s : Tls) : Prop :=
  s.version ≠ 12 ∧ kind ≠ ctApplicationData ∨ s.version = 12 ∧ s.serverCipher = false ∧ kind ≠ ctChangeCipherSpec

theorem header_kind : octet r.header 0 = r.kind := rfl

theorem takeRecord_clear {r : Framed} (clear : InClear r.kind σ.tls) :
    takeRecord P env r σ = deliver P env σ.tls ⟨r.kind, r.body, none⟩ σ := by
  have opened : σ.tls.openRecord P r.header r.body = (some ⟨r.kind, r.body, none⟩, σ.tls) := by
    unfold openRecord
    rcases clear with ⟨v, kind⟩ | ⟨v, off, -⟩
    · simp [v, kind, header_kind]
    · simp [v, off, header_kind]
  have other : ¬ (σ.tls.version = 12 && octet r.header 0 = ctChangeCipherSpec) = true := by
    rcases clear with ⟨v, -⟩ | ⟨-, -, kind⟩
    · simp [v]
    · simp [kind, header_kind]
  unfold takeRecord handleRecord
  rw [if_neg other, opened]

/-- A message that says its own length. -/
def Whole (msg : Bytes) : Prop := 4 ≤ msg.length ∧ msg.length = 4 + be24At msg 1

theorem wrap_whole (kind : UInt8) {body : Bytes} (small : body.length < 16777216) : Whole (wrap kind body) := by
  have len : be24At (wrap kind body) 1 = body.length := be24At_be24 body.length small body
  have whole : (wrap kind body).length = 4 + body.length := by
    simp [wrap]
    omega
  exact ⟨by omega, by rw [len, whole]⟩

theorem handleHandshake_message {msg : Bytes} (whole : Whole msg) (σ : Session) :
    σ.handleHandshake P env msg = (σ.dispatch P env msg).2 := by
  have taken : messageStep P env ⟨σ, msg, false⟩ = some ⟨(σ.dispatch P env msg).2, [], !(σ.dispatch P env msg).1⟩ := by
    obtain ⟨long, len⟩ := whole
    unfold messageStep
    dsimp only
    rw [if_neg (by simp [long]), if_neg (by omega), ← len, List.take_length, List.drop_length]
  unfold handleHandshake
  rw [whileSome_next (fun _ _ h => messageStep_shrinks P env h) taken, whileSome_done (by simp [messageStep])]

/-- A handshake record in the clear that holds one message. -/
theorem takeRecord_message {msg : Bytes} (whole : Whole msg) (clear : InClear ctHandshake σ.tls) :
    takeRecord P env ⟨ctHandshake, msg⟩ σ = (σ.dispatch P env msg).2 := by
  rw [takeRecord_clear P env clear]
  unfold deliver
  exact handleHandshake_message P env whole σ

end Session

/-! ## Getting a client to listen -/

/-- Some sequence of calls leads there. -/
def Reachable (σ : Session) : Prop := ∃ calls, after P calls = σ

theorem Reachable.step (h : Reachable P σ) (c : Call) : Reachable P (σ.step P c) := by
  obtain ⟨calls, rfl⟩ := h
  exact ⟨calls ++ [c], by simp [after, run_append]⟩

/-- Everything handed down goes out, no time passes, and every random octet is zero. -/
def wireEnv : Env := ⟨quietEnv, fun _ _ => 0, .pending, false, false⟩

def serverIp : Ip := ⟨1, 2, 3, 4⟩

/-- `"1.2.3.4"`. -/
def serverHost : Bytes := [0x31, 0x2e, 0x32, 0x2e, 0x33, 0x2e, 0x34]

variable {n : Nat}

theorem Reachable.segment (h : Reachable P σ) (talking : Talking serverIp n σ.tls.tcp) (octets : Bytes)
    (fits : σ.tls.tcp.rxLen + octets.length ≤ rxCap) : ∃ tcp,
      Reachable P { σ with tls := { σ.tls with tcp := tcp } } ∧ Talking serverIp n tcp ∧
      tcp.pending = σ.tls.tcp.pending ++ octets := by
  obtain ⟨talking', pending⟩ := talking.handle_nextSegment quietEnv fits
  exact ⟨_, h.step P ⟨wireEnv, .transport (.segment serverIp (σ.tls.tcp.nextSegment octets))⟩, talking', pending⟩

theorem tick_still (tcp : Tcb) : tcp.tick quietEnv = tcp := by
  unfold Tcb.tick
  split
  · rfl
  · rw [if_pos (by simp [quietEnv, retryTicks])]

/-- The same session over another transport. -/
def Session.over (tcp : Tcb) (σ : Session) : Session := { σ with tls := { σ.tls with tcp := tcp } }

variable {s : Tls}

/-- Nothing is left to do behind the records, as long as the peer is there. -/
theorem afterDrain_still (talking : Talking serverIp n s.tcp)
    (flown : s.version = 12 → s.step12 ≠ 1) : s.afterDrain P env = s := by
  have there : s.checkTransport = s := by
    unfold checkTransport
    rw [talking.state, talking.open', if_neg (by decide), if_neg (by simp)]
  unfold afterDrain
  rw [if_neg (by simpa using flown), there]

theorem notePeerClosed_still (talking : Talking serverIp n s.tcp) : s.notePeerClosed = s := by
  unfold notePeerClosed
  rw [talking.open', if_neg (by decide)]

/-- Records that arrive whole and do not end the connection are taken in one tick. -/
theorem Reachable.taken {m : Nat} (h : Reachable P σ) (live : σ.tls.phase = .handshaking ∨ σ.tls.phase = .established)
    (talking : Talking serverIp n σ.tls.tcp) (empty : σ.tls.tcp.pending = []) (rs : List Framed)
    (fits : ∀ r ∈ rs, r.Fits) (short : (rs.flatMap Framed.octets).length ≤ rxCap)
    (good : ∀ tcp, Talking serverIp n tcp → Lasts P wireEnv rs (σ.over tcp) ∧
      Talking serverIp m (takeRecords P wireEnv rs (σ.over tcp)).tls.tcp ∧
      ((takeRecords P wireEnv rs (σ.over tcp)).tls.version = 12 →
        (takeRecords P wireEnv rs (σ.over tcp)).tls.step12 ≠ 1)) :
    ∃ tcp tcp', Talking serverIp n tcp ∧ Talking serverIp m tcp' ∧ tcp'.pending = [] ∧
      Reachable P ((takeRecords P wireEnv rs (σ.over tcp)).over tcp') := by
  have rxLen : σ.tls.tcp.rxLen = 0 := by
    rw [← Tcb.pending_length, empty]
    rfl
  obtain ⟨tcp, arrived, talking', pending⟩ := h.segment P talking (rs.flatMap Framed.octets)
    (by rw [rxLen, Nat.zero_add]; exact short)
  rw [empty, List.nil_append] at pending
  obtain ⟨lasts, behind, flown⟩ := good tcp talking'
  obtain ⟨τ, same, drained⟩ := drainTcp_records P wireEnv rs fits (σ.over tcp) pending lasts
  have rx := lasts.rx P wireEnv
  rw [← same] at behind flown rx
  have released := behind.rxRelease wireEnv.tcp (rs.flatMap Framed.octets).length
  refine ⟨tcp, τ.tls.tcp.rxRelease wireEnv.tcp (rs.flatMap Framed.octets).length, talking', released, ?_, ?_⟩
  · rw [Tcb.rxRelease_pending, Tcb.pending_of_rx rx]
    exact List.drop_of_length_le (by rw [← pending]; exact le_rfl)
  · have ticked := arrived.step P ⟨wireEnv, .tick⟩
    have tick : (σ.over tcp).step P ⟨wireEnv, .tick⟩ =
        τ.over (τ.tls.tcp.rxRelease wireEnv.tcp (rs.flatMap Framed.octets).length) := by
      have still : { σ.over tcp with tls := (σ.over tcp).tls.tickTcp wireEnv } = σ.over tcp := by
        unfold tickTcp
        rw [show wireEnv.tcp = quietEnv from rfl, tick_still]
      show (σ.over tcp).tick P wireEnv = _
      unfold tick
      rcases live with handshaking | established
      · rw [show (σ.over tcp).tls.phase = .handshaking from handshaking]
        rw [still, drained]
        exact congrArg (mk · τ.log) (afterDrain_still P wireEnv released flown)
      rw [show (σ.over tcp).tls.phase = .established from established]
      rw [still, drained]
      exact congrArg (mk · τ.log) (notePeerClosed_still released)
    rw [← same, ← tick]
    exact ticked

/-- An open transport to the server. -/
def shaken : Tcb :=
  (({} : Tls).tcp.reset.connect quietEnv serverIp 443).2.handle quietEnv serverIp
    (be16 443 ++ be16 40000 ++ be32 0 ++ be32 0 ++ [0x50, 0x12, 0, 0, 0, 0, 0, 0])

theorem shaken_talking : Talking serverIp 0 shaken :=
  ⟨rfl, rfl, rfl, ⟨rfl, rfl⟩, rfl, rfl⟩

theorem clientHello_length (random share : Bytes) (r : random.length = 32) (s : share.length = 32) :
    (clientHello serverHost random share).length = 173 := by
  simp [clientHello, helloExtensions, extension, listed, wrap, be16, serverHost, http11, r, s]

theorem sendRecord_unkeyed {kind : UInt8} {body octets : Bytes} (v : s.version ≠ 12)
    (unkeyed : (s.clientKeys kind).key = []) (out : plainRecord kind body = some octets) :
    s.sendRecord P env kind body =
      ((s.tcp.send env.tcp octets).1, { s with tcp := (s.tcp.send env.tcp octets).2 }) := by
  have plain : s.recordOut P kind body = (some octets, s) := by
    unfold recordOut
    rw [if_neg v, unkeyed, if_pos (by rfl), out]
  unfold sendRecord
  rw [plain]
  rfl

theorem sendClientHello_sent (s : Tls) (octets : Bytes) (v : s.version ≠ 12) (unkeyed : s.clientHs.key = [])
    (out : plainRecord ctHandshake (clientHello s.hostStr (s.randomBytes env 1)
      (publicKey P (s.randomBytes env 0))) = some octets)
    (sent : (s.tcp.send env.tcp octets).1 = true) : s.sendClientHello P env = { s with
      priv := s.randomBytes env 0, pub := publicKey P (s.randomBytes env 0),
      clientRandom := s.randomBytes env 1, draws := s.draws + 2, tcp := (s.tcp.send env.tcp octets).2,
      transcript := s.transcript ++
        clientHello s.hostStr (s.randomBytes env 1) (publicKey P (s.randomBytes env 0)) } := by
  dsimp only [sendClientHello]
  rw [sendRecord_unkeyed P env (by exact v) (by exact unkeyed) out]
  rw [sent, if_pos rfl]

/-- The ClientHello on the wire. -/
def helloRecord : Bytes :=
  recordHeader ctHandshake 173 ++ clientHello serverHost (zeros 32) (publicKey P (zeros 32))

theorem helloRecord_out : plainRecord ctHandshake
    (clientHello serverHost (zeros 32) (publicKey P (zeros 32))) = some (helloRecord P) := by
  have len := clientHello_length (zeros 32) (publicKey P (zeros 32)) (by simp) (by simp [publicKey, scalarmult])
  unfold plainRecord
  rfl

theorem helloRecord_length : (helloRecord P).length = 178 := by
  have len := clientHello_length (zeros 32) (publicKey P (zeros 32)) (by simp) (by simp [publicKey, scalarmult])
  simp [helloRecord, len]

/-- The client when the transport has just opened. -/
def connected : Tls :=
  { ({} : Tls) with phase := .connecting, host := serverHost, port := 443, tcp := shaken }

/-- The client behind its ClientHello, over some transport. -/
def greeted (tcp : Tcb) : Tls :=
  { connected with
    phase := .handshaking, clientRandom := zeros 32, priv := zeros 32, pub := publicKey P (zeros 32),
    draws := connected.draws + 2, tcp := tcp, transcript := connected.transcript ++
      clientHello serverHost (zeros 32) (publicKey P (zeros 32)) }

theorem connected_reachable : Reachable P ⟨connected, []⟩ :=
  ⟨[⟨wireEnv, .start serverHost 443⟩, ⟨wireEnv, .transport (.segment serverIp
    (be16 443 ++ be16 40000 ++ be32 0 ++ be32 0 ++ [0x50, 0x12, 0, 0, 0, 0, 0, 0]))⟩], rfl⟩

theorem connected_tick : connected.tickConnecting P wireEnv =
    ({ connected with phase := .handshaking }).sendClientHello P wireEnv := by
  have still : (connected.tickTcp wireEnv).tickDns wireEnv = connected := by
    unfold tickTcp
    rfl
  unfold tickConnecting
  exact if_pos shaken_talking.state

theorem wireEnv_random (s : Tls) (n : Nat) : s.randomBytes wireEnv n = zeros 32 := by
  simp [randomBytes, octets, zeros, wireEnv]

theorem connected_hello (sent : (shaken.send quietEnv (helloRecord P)).1 = true) :
    ({ connected with phase := .handshaking }).sendClientHello P wireEnv =
      greeted P (shaken.send quietEnv (helloRecord P)).2 := by
  have name : ({ connected with phase := .handshaking }).hostStr = serverHost := by
    unfold hostStr
    rfl
  have said := sendClientHello_sent P wireEnv { connected with phase := .handshaking } (helloRecord P)
    (by decide) rfl (by rw [wireEnv_random]; exact helloRecord_out P) sent
  exact said

theorem shaken_pending : shaken.pending = [] := rfl

/-- The client can be brought to the point where it waits for a ServerHello. -/
theorem greeted_reachable : ∃ tcp, Reachable P ⟨greeted P tcp, []⟩ ∧ Talking serverIp 1 tcp ∧ tcp.pending = [] := by
  have ne : helloRecord P ≠ [] := by
    rw [← List.length_pos_iff, helloRecord_length]
    decide
  have sent := shaken_talking.send quietEnv (fun _ => rfl) (helloRecord P) ne
    (by rw [helloRecord_length]; decide) (by decide)
  refine ⟨(shaken.send quietEnv (helloRecord P)).2, ?_, sent.2, ?_⟩
  · have ticked := (connected_reachable P).step P ⟨wireEnv, .tick⟩
    have tick : step P ⟨connected, []⟩ ⟨wireEnv, .tick⟩ = ⟨connected.tickConnecting P wireEnv, []⟩ := rfl
    rw [tick, connected_tick, connected_hello P sent.1] at ticked
    exact ticked
  · rw [Tcb.pending_of_rx (Tcb.send_rx _ _ _), shaken_pending]

/-- Each part of what the server says arrives in one segment, and is then read. -/
def deliveries : UInt32 → List (List Framed) → List Call
  | _, [] => []
  | seq, rs :: more =>
    let octets := rs.flatMap Framed.octets
    ⟨wireEnv, .transport (.segment serverIp
      (be16 443 ++ be16 40000 ++ be32 seq ++ be32 0 ++ [0x50, 0, 0, 0, 0, 0, 0, 0] ++ octets))⟩ ::
      ⟨wireEnv, .tick⟩ :: deliveries (seq + UInt32.ofNat octets.length) more

/-- A connection in which the server says so much. -/
def serverSays (parts : List (List Framed)) : List Call :=
  [⟨wireEnv, .start serverHost 443⟩, ⟨wireEnv, .transport (.segment serverIp
      (be16 443 ++ be16 40000 ++ be32 0 ++ be32 0 ++ [0x50, 0x12, 0, 0, 0, 0, 0, 0]))⟩,
    ⟨wireEnv, .tick⟩] ++ deliveries 1 parts

end BarryOS.Crypto
