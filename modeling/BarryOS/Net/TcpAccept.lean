import BarryOS.Net.TcpTransmit

/-!
# Segments that should change nothing

RFC 793 has a receiver drop segments whose checksum is wrong, whose acknowledgement is of
something never sent, and resets and SYNs from outside the window (`Unacceptable`). `handle`
asks for none of this. What it does with a segment depends on other things alone, and
`receive_conn_iff` says for every segment whether the connection is the same afterwards.
-/

namespace BarryOS.Net.Tcp

open Lib List

/-- The connection: its state, its queues and its sequence variables. -/
structure ConnView where
  active : Bool
  state : State
  rx : RxView
  tx : TxView
  rxTruncated : Bool
  peerClosed : Bool

namespace Tcb

def conn (s : Tcb) : ConnView := ⟨s.active, s.state, s.rx, s.tx, s.rxTruncated, s.peerClosed⟩

/-- The sequence numbers the peer has been given room for; with no room, the next one only. -/
def InWindow (s : Tcb) (seq : UInt32) : Prop :=
  if s.window = 0 then seq = s.rcvNxt else seq - s.rcvNxt < s.window.toUInt32

/-- Later than `SND_NXT`, in the order of sequence numbers. -/
def Unsent (s : Tcb) (ack : UInt32) : Prop := ack ≠ s.sndNxt ∧ ack - s.sndNxt < 0x80000000

/-- What RFC 793 has a receiver drop. -/
inductive Unacceptable (s : Tcb) (d : Ipv4.Datagram) : Prop
  | checksum (wrong : Tcp.checksum d.src d.dst d.body ≠ 0)
  | opening (g : Segment) (ours : s.parse d.src d.body = some g) (state : s.state = .synSent)
      (acks : g.hasAck = true) (other : g.ack ≠ s.iss + 1)
  | outside (g : Segment) (ours : s.parse d.src d.body = some g) (state : s.state.synchronised = true)
      (control : g.rst = true ∨ g.syn = true) (window : ¬ s.InWindow g.seq)
  | unsent (g : Segment) (ours : s.parse d.src d.body = some g) (state : s.state.synchronised = true)
      (acks : g.hasAck = true) (beyond : s.Unsent g.ack)

/-- The acknowledgement retires nothing, and `SND_UNA` stands where the queue starts. -/
def AcksNothing (g : Segment) (s : Tcb) : Prop :=
  g.hasAck = true → g.ack - s.sndUna < 0x80000000 → match s.queue with
    | [] => s.sndUna = s.sndNxt
    | e :: _ => e.retired g.ack = false ∧ s.sndUna = e.seq

/-- There is nothing in the segment that a connection in this state takes. -/
structure Empty (g : Segment) (s : Tcb) : Prop where
  acks : s.AcksNothing g
  opening : s.state = .synSent → (g.syn && g.hasAck) = false
  fin : s.state.synchronised = true → g.fin = false
  payload : s.state.synchronised = true → g.payload = [] ∨ g.seq ≠ s.rcvNxt
  closing : s.state = .finWait → s.queue ≠ []

/-- A reset counts unless the connection has failed already; any other segment if there is something
in it. -/
def Harmless (g : Segment) (s : Tcb) : Prop := if g.rst then s.state = .failed else s.Empty g

/-! ## The acknowledgement -/

theorem ackAdvance_tx_iff (ack : UInt32) (s : Tcb) : (s.ackAdvance ack).tx = s.tx ↔ match s.queue with
      | [] => s.sndUna = s.sndNxt
      | e :: _ => e.retired ack = false ∧ s.sndUna = e.seq := by
  have queue := s.ackAdvance_queue ack
  have una := s.ackAdvance_una ack
  have head : (s.ackAdvance ack).txHead = s.txHead + UInt32.ofNat (s.queue.takeWhile (TxEntry.retired ack)).length :=
    s.retire_eq ack s.queued s.txHead
  have same : (s.ackAdvance ack).tx = s.tx ↔
      (s.ackAdvance ack).sndUna = s.sndUna ∧ (s.ackAdvance ack).txHead = s.txHead := by
    constructor
    · intro h
      exact ⟨congrArg TxView.sndUna h, congrArg TxView.txHead h⟩
    · rintro ⟨hu, hh⟩
      unfold tx
      rw [hu, hh]
      rfl
  rw [same, una, queue, head]
  cases hq : s.queue with
  | nil =>
    simp only [takeWhile_nil, length_nil]
    rw [show s.txHead + UInt32.ofNat 0 = s.txHead from UInt32.add_zero _]
    exact ⟨fun h => h.1.symm, fun h => ⟨h.symm, rfl⟩⟩
  | cons e q =>
    cases gone : e.retired ack with
    | false =>
      simp only [takeWhile_cons, dropWhile_cons, gone, Bool.false_eq_true, ↓reduceIte, length_nil, true_and]
      rw [show s.txHead + UInt32.ofNat 0 = s.txHead from UInt32.add_zero _]
      exact ⟨fun h => h.1.symm, fun h => ⟨h.symm, rfl⟩⟩
    | true =>
      -- Something is retired: the head has moved.
      have short : (s.queue.takeWhile (TxEntry.retired ack)).length < 2 ^ 32 := by
        have le := List.IsPrefix.length_le <| takeWhile_prefix (TxEntry.retired ack) (l := s.queue)
        rw [queue_length] at le
        exact Nat.lt_of_le_of_lt le (s.txTail - s.txHead).toNat_lt
      rw [hq, takeWhile_cons, if_pos gone, length_cons] at short
      refine iff_of_false (fun h => ?_) (fun h => Bool.noConfusion (gone.symm.trans h.1))
      have moved := congrArg UInt32.toNat h.2
      rw [takeWhile_cons, if_pos gone, length_cons] at moved
      simp only [UInt32.toNat_add, UInt32.toNat_ofNat'] at moved
      omega

variable (g : Segment) (s : Tcb)

theorem onAck_tx_iff : (s.onAck g).tx = s.tx ↔ s.AcksNothing g := by
  unfold onAck AcksNothing
  split
  next taken =>
    rw [← ackAdvance_tx_iff]
    exact ⟨fun h _ _ => h, fun h => h taken.1 taken.2⟩
  next ignored => exact iff_of_true rfl fun acks near => absurd ⟨acks, near⟩ ignored

/-! ## The rest of the segment -/

theorem conn_eq_iff {s t : Tcb} : t.conn = s.conn ↔ t.active = s.active ∧ t.state = s.state ∧
    t.rx = s.rx ∧ t.tx = s.tx ∧ t.rxTruncated = s.rxTruncated ∧ t.peerClosed = s.peerClosed := by
  unfold conn
  rw [ConnView.mk.injEq]

theorem rcvNxt_of_conn {s t : Tcb} (same : t.conn = s.conn) : t.rcvNxt = s.rcvNxt :=
  congrArg (fun v => v.rx.rcvNxt) same

variable (env : Env)

theorem sendAck_conn (s : Tcb) : (sendAck env s).conn = s.conn := by
  unfold sendAck
  split <;> rfl

/-- A payload in order moves `RCV_NXT` over all of it, stored or not. -/
theorem takePayload_rcvNxt (taken : g.payload ≠ []) (inOrder : g.seq = s.rcvNxt) :
    (s.takePayload g).2.rcvNxt = s.rcvNxt + UInt32.ofNat g.payload.length := by
  unfold takePayload
  rw [if_neg (by simpa using taken), if_pos inOrder]
  dsimp only
  have kept : (s.appendRx g.payload).2.rcvNxt = s.rcvNxt := by
    unfold appendRx
    dsimp only
    split <;> rfl
  split
  next short =>
    rw [kept, UInt32.add_assoc, ← UInt32.ofNat_add, Nat.add_sub_cancel' (Nat.le_of_lt short)]
  rename_i whole
  have all : (s.appendRx g.payload).1 = g.payload.length := by
    refine Nat.le_antisymm ?_ (Nat.not_lt.mp whole)
    unfold appendRx
    dsimp only
    split
    · exact Nat.zero_le _
    · exact Nat.min_le_left _ _
  rw [kept, all]

theorem takePayload_same (nothing : g.payload = [] ∨ g.seq ≠ s.rcvNxt) : (s.takePayload g).2 = s := by
  unfold takePayload
  split
  · rfl
  rename_i some
  rcases nothing with empty | early
  · exact absurd (by simpa using empty) some
  · rw [if_neg early]

theorem add_ne_self {a : UInt32} {n : Nat} (pos : 0 < n) (small : n < 2 ^ 32) : a + UInt32.ofNat n ≠ a := by
  intro same
  have h := congrArg UInt32.toNat same
  simp only [UInt32.toNat_add, UInt32.toNat_ofNat'] at h
  omega

theorem onData_rcvNxt (g : Segment) (s : Tcb) :
    (s.onData env g).rcvNxt = (s.takePayload g).2.rcvNxt + UInt32.ofNat g.fin.toNat := by
  have rx := congrArg RxView.rcvNxt (onData_rx env g s)
  cases fin : g.fin with
  | true =>
    rw [fin] at rx
    exact rx
  | false =>
    rw [fin] at rx
    exact rx.trans (UInt32.add_zero _).symm

theorem finAcked_iff : s.finAcked = true ↔ s.queue = [] := by
  rw [queue_eq_nil_iff, finAcked, decide_eq_true_eq]

/-- In a synchronised state: nothing changes exactly if nothing is taken. -/
theorem onData_conn_iff (g : Segment) (s : Tcb) (short : g.payload.length + 1 < 2 ^ 32) :
    (s.onData env g).conn = s.conn ↔ g.fin = false ∧ (g.payload = [] ∨ g.seq ≠ s.rcvNxt) ∧
      ¬ (s.state = .finWait ∧ s.queue = []) := by
  have nxt := onData_rcvNxt env g s
  by_cases nothing : g.payload = [] ∨ g.seq ≠ s.rcvNxt
  · have same := takePayload_same g s nothing
    cases fin : g.fin with
    | true =>
      refine iff_of_false (fun h => ?_) (fun h => Bool.noConfusion h.1)
      rw [same, fin, rcvNxt_of_conn h] at nxt
      exact add_ne_self (a := s.rcvNxt) (by decide) (by decide) nxt.symm
    | false =>
      have after : s.onData env g = (s.ackPayload env (s.takePayload g).1 g).noteFinAcked := by
        unfold onData
        dsimp only
        rw [fin, if_neg (by decide), same]
      have answered : (s.ackPayload env (s.takePayload g).1 g).conn = s.conn := by
        unfold ackPayload
        split
        · exact sendAck_conn env s
        · rfl
      rw [after]
      unfold noteFinAcked
      obtain ⟨_, state, _, tx, _, _⟩ := conn_eq_iff.mp answered
      split
      next closing =>
        rw [state, finAcked_iff, queue_of_tx tx] at closing
        refine iff_of_false (fun h => ?_) (fun h => h.2.2 closing)
        have changed : State.finSent = s.state := (conn_eq_iff.mp h).2.1
        rw [closing.1] at changed
        cases changed
      next waits =>
        rw [state, finAcked_iff, queue_of_tx tx] at waits
        exact iff_of_true answered ⟨rfl, nothing, waits⟩
  · rw [not_or, not_not] at nothing
    obtain ⟨some, inOrder⟩ := nothing
    have pos : 0 < g.payload.length := length_pos_iff.mpr some
    refine iff_of_false (fun h => ?_) (fun h => h.2.1.elim some fun early => early inOrder)
    rw [takePayload_rcvNxt g s some inOrder, rcvNxt_of_conn h, UInt32.add_assoc, ← UInt32.ofNat_add] at nxt
    have flag := Bool.toNat_le g.fin
    exact add_ne_self (a := s.rcvNxt) (by omega) (by omega) nxt.symm

/-! ## Any segment -/

theorem onAck_conn_iff : (s.onAck g).conn = s.conn ↔ s.AcksNothing g := by
  rw [← onAck_tx_iff]
  constructor
  · exact fun h => (conn_eq_iff.mp h).2.2.2.1
  · intro tx
    refine conn_eq_iff.mpr ⟨?_, onAck_state g s, onAck_rx g s, tx, ?_, ?_⟩
    all_goals
      unfold onAck
      split <;> rfl

/-- The arm for the state sees the acknowledgement's effect on the queue only. -/
theorem onData_onAck_conn_iff (g : Segment) (s : Tcb) (short : g.payload.length + 1 < 2 ^ 32) :
    ((s.onAck g).onData env g).conn = s.conn ↔ s.AcksNothing g ∧ g.fin = false ∧
      (g.payload = [] ∨ g.seq ≠ s.rcvNxt) ∧ ¬ (s.state = .finWait ∧ s.queue = []) := by
  have nxt : (s.onAck g).rcvNxt = s.rcvNxt := congrArg RxView.rcvNxt (onAck_rx g s)
  by_cases acks : s.AcksNothing g
  · have same := (onAck_conn_iff g s).mpr acks
    rw [← same, onData_conn_iff env g _ short, nxt, onAck_state, queue_of_tx ((onAck_tx_iff g s).mpr acks)]
    exact ⟨fun h => ⟨acks, h⟩, fun h => h.2⟩
  · refine iff_of_false (fun h => acks ((onAck_tx_iff g s).mp ?_)) (fun h => acks h.1)
    rw [← onData_tx env g (s.onAck g)]
    exact (conn_eq_iff.mp h).2.2.2.1

theorem Empty.of_idle {g : Segment} {s : Tcb} (sync : s.state.synchronised ≠ true)
    (opening : s.state = .synSent → (g.syn && g.hasAck) = false) (acks : s.AcksNothing g) : s.Empty g :=
  ⟨acks, opening, fun on => absurd on sync, fun on => absurd on sync, fun wait => absurd (by rw [wait]; rfl) sync⟩

theorem onSegment_conn_iff (g : Segment) (s : Tcb) (short : g.payload.length + 1 < 2 ^ 32) :
    (s.onSegment env g).conn = s.conn ↔ s.Harmless g := by
  unfold Harmless
  cases reset : g.rst with
  | true =>
    rw [onSegment_reset env g s reset, conn_eq_iff]
    exact ⟨fun h => h.2.1.symm, fun h => ⟨rfl, h.symm, rfl, rfl, rfl, rfl⟩⟩
  | false =>
    by_cases opening : s.state = .synSent
    · rw [onSegment_opening env g s reset opening]
      unfold onSynSent
      split
      next answered =>
        refine iff_of_false (fun h => ?_) (fun h => Bool.noConfusion (answered.symm.trans (h.opening opening)))
        have state := (conn_eq_iff.mp h).2.1
        rw [opening] at state
        cases state
      next other =>
        rw [onAck_conn_iff]
        exact ⟨.of_idle (by rw [opening]; decide) fun _ => Bool.not_eq_true _ ▸ other, fun h => h.acks⟩
    · cases sync : s.state.synchronised with
      | true =>
        rw [onSegment_synchronised env g s reset sync, onData_onAck_conn_iff env g s short]
        constructor
        · rintro ⟨acks, fin, payload, closing⟩
          exact ⟨acks, fun state => absurd state opening, fun _ => fin, fun _ => payload,
            fun wait none => closing ⟨wait, none⟩⟩
        · intro h
          exact ⟨h.acks, h.fin sync, h.payload sync, fun both => h.closing both.1 both.2⟩
      | false =>
        rw [onSegment_idle env g s reset opening sync, onAck_conn_iff]
        exact ⟨.of_idle (by rw [sync]; decide) fun state => absurd state opening, fun h => h.acks⟩

theorem parse_payload {s : Tcb} {src : Ip} {body : Bytes} {g : Segment} (h : s.parse src body = some g) :
    g.payload.length ≤ body.length := by
  unfold parse at h
  split at h
  · cases h
  split at h
  · cases h
  split at h
  · cases h
  split at h
  · cases h
  dsimp only at h
  split at h
  · cases h
  cases h
  rw [length_drop]
  exact Nat.sub_le _ _

end Tcb

/-- For every connection and every frame with a TCP segment that RFC 793 calls unacceptable: the
connection is the same afterwards exactly if the segment is not for it, or is harmless. -/
theorem unacceptable_unchanged_iff (env : Env) (s : Tcb) (frame : Bytes) (d : Ipv4.Datagram)
    (arrives : Ipv4.parseFrame env.ourIp frame = some d) (isTcp : d.proto = Ipv4.protoTcp) :
    s.Unacceptable d → ((s.receive env frame).conn = s.conn ↔ ∀ g, s.parse d.src d.body = some g → s.Harmless g) := by
  intro _
  unfold Tcb.receive Tcb.handle
  rw [arrives]
  dsimp only
  rw [if_pos isTcp]
  have short := Ipv4.body_length arrives
  split
  next notOurs => exact iff_of_true rfl fun g ours => nomatch notOurs.symm.trans ours
  rename_i g ours
  have fits := Tcb.parse_payload ours
  rw [Tcb.onSegment_conn_iff env g s (by omega)]
  constructor
  · intro harmless g' ours'
    cases ours.symm.trans ours'
    exact harmless
  · exact fun harmless => harmless g ours

/-- A frame from the peer to us around a segment. -/
def peerFrame (body : Bytes) : Bytes :=
  let front := [0x45, 0] ++ be16 (UInt16.ofNat (20 + body.length)) ++ [0, 0, 0, 0, 64, Ipv4.protoTcp]
  let back := peerIp.octets ++ quietEnv.ourIp.octets
  zeros 12 ++ be16 Ipv4.etherType ++ front ++ be16 (Ipv4.checksum (front ++ [0, 0] ++ back)) ++ back ++ body

/-- The connection to the peer, open; it has been promised sequence number 101 on. -/
def synced : Tcb :=
  ((({} : Tcb).connect quietEnv peerIp 80).2).handle quietEnv peerIp (peerSegment 100 0x12 1 [])

/-- An acknowledgement of octets never sent, with nothing outstanding. -/
theorem unsent_ack_unchanged :
    (synced.receive quietEnv (peerFrame (peerSegment 101 0x10 7 []))).conn = synced.conn := by
  have arrives : Ipv4.parseFrame quietEnv.ourIp (peerFrame (peerSegment 101 0x10 7 [])) =
      some ⟨peerIp, quietEnv.ourIp, Ipv4.protoTcp, peerSegment 101 0x10 7 []⟩ := by
    decide
  have ours : synced.parse peerIp (peerSegment 101 0x10 7 []) = some ⟨101, 7, 0x10, []⟩ := by
    decide
  refine (unacceptable_unchanged_iff quietEnv synced _ _ arrives rfl
    (.unsent _ ours (by decide) (by decide) ⟨by decide, by decide⟩)).mpr ?_
  intro g hg
  cases ours.symm.trans hg
  have outstanding : synced.queue = [] := by
    decide
  refine ⟨fun _ _ => ?_, by decide, by decide, by decide, by decide⟩
  rw [outstanding]
  decide

/-- A reset from anywhere in the sequence space ends the connection. -/
theorem stray_reset_fails : ¬ ∀ (env : Env) (s : Tcb) (frame : Bytes) (d : Ipv4.Datagram),
      Ipv4.parseFrame env.ourIp frame = some d → d.proto = Ipv4.protoTcp → s.Unacceptable d →
      (s.receive env frame).conn = s.conn := by
  intro claim
  have arrives : Ipv4.parseFrame quietEnv.ourIp (peerFrame (peerSegment 5 0x04 0 [])) =
      some ⟨peerIp, quietEnv.ourIp, Ipv4.protoTcp, peerSegment 5 0x04 0 []⟩ := by
    decide
  have ours : synced.parse peerIp (peerSegment 5 0x04 0 []) = some ⟨5, 0, 0x04, []⟩ := by
    decide
  have outside : ¬ synced.InWindow 5 := by
    unfold Tcb.InWindow
    decide
  have same := claim quietEnv synced _ _ arrives rfl (.outside _ ours (by decide) (.inl (by decide)) outside)
  have state := congrArg ConnView.state same
  exact absurd state (by decide)

end BarryOS.Net.Tcp
