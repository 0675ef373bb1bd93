import BarryOS.Net.TcpReceive
import BarryOS.Net.TcpSyn

/-!
# The end of the stream

`handle` takes a FIN wherever it stands in the sequence, and takes it again each time it
arrives: `PEER_CLOSED` is set, and `RCV_NXT` goes on by one. Where a FIN that is taken is the
first one and comes in order (`FinOnce`, with `InOrder` for the data), `PEER_CLOSED` means that
the whole stream is stored, and `RCV_NXT` has passed the FIN once (`EndOfStream`).
-/

namespace BarryOS.Net.Tcp

open Lib Tcb Bool

/-- `RCV_NXT` stands behind the octets stored, and behind the FIN once it has been taken, which is
when all of `S` is stored. -/
structure EndOfStream (S : Bytes) (w : Watch) : Prop where
  flowing : w.tcb.peerClosed = false → w.stored <+: S ∧ w.position = w.stored.length + 1
  ended : w.tcb.peerClosed = true → w.stored = S ∧ w.position = S.length + 2

/-- A FIN reaches a synchronised connection only while `PEER_CLOSED` is off. -/
def FinOnce (w : Watch) (d : Delivery) : Prop :=
  match d.call.op with
  | .segment src body => ∀ g, w.tcb.parse src body = some g →
      w.tcb.state.synchronised = true → g.rst = false → g.fin = true → w.tcb.peerClosed = false
  | _ => True

instance (w : Watch) (d : Delivery) : Decidable (FinOnce w d) :=
  match d with
  | ⟨⟨_, .segment src body⟩, _⟩ => inferInstanceAs (Decidable (∀ g ∈ w.tcb.parse src body,
      w.tcb.state.synchronised = true → g.rst = false → g.fin = true → w.tcb.peerClosed = false))
  | ⟨⟨_, .connect ..⟩, _⟩ | ⟨⟨_, .send _⟩, _⟩ | ⟨⟨_, .close⟩, _⟩ | ⟨⟨_, .tick⟩, _⟩
  | ⟨⟨_, .release _⟩, _⟩ => isTrue trivial

/-! ## `PEER_CLOSED` -/

namespace Tcb

theorem offTimer_peerClosed : OffTimer peerClosed := ⟨fun _ _ _ _ => rfl, fun _ _ => rfl, fun _ => rfl⟩

variable (env : Env)

theorem sendAck_peerClosed (s : Tcb) : (sendAck env s).peerClosed = s.peerClosed :=
  offTimer_peerClosed.offWire.sendAck env s

variable (g : Segment)

theorem onAck_peerClosed (s : Tcb) : (s.onAck g).peerClosed = s.peerClosed := by
  unfold onAck
  split <;> rfl

theorem send_peerClosed (data : Bytes) (s : Tcb) : (s.send env data).2.peerClosed = s.peerClosed := by
  unfold send
  split
  · rfl
  split
  · rfl
  · split <;> rfl

theorem close_peerClosed (s : Tcb) : (s.close env).peerClosed = s.peerClosed := by
  unfold close
  split <;> rfl

theorem tick_peerClosed (s : Tcb) : (s.tick env).peerClosed = s.peerClosed :=
  offTimer_peerClosed.tick env s

theorem rxRelease_peerClosed (n : Nat) (s : Tcb) : (s.rxRelease env n).peerClosed = s.peerClosed :=
  offTimer_peerClosed.offWire.rxRelease (fun _ _ => rfl) env n s

theorem takePayload_peerClosed (s : Tcb) : (s.takePayload g).2.peerClosed = s.peerClosed :=
  OffRing.takePayload (fun _ _ _ _ _ => rfl) g s

/-- Only a FIN sets it. -/
theorem onData_peerClosed (s : Tcb) : (s.onData env g).peerClosed = (s.peerClosed || g.fin) := by
  unfold onData
  dsimp only
  split
  next fin =>
    unfold takeFin
    dsimp only
    split
    · rw [sendAck_peerClosed, fin, Bool.or_true]
    · rw [sendAck_peerClosed, fin, Bool.or_true]
  next noFin =>
    have kept := takePayload_peerClosed g s
    have answered : ((s.takePayload g).2.ackPayload env (s.takePayload g).1 g).peerClosed = s.peerClosed :=
      (offTimer_peerClosed.offWire.ackPayload env _ g _).trans kept
    rw [not_eq_true] at noFin
    rw [noFin, Bool.or_false]
    unfold noteFinAcked
    split
    · exact answered
    · exact answered

end Tcb

/-! ## One call -/

/-- What one call does, as it is watched: it stores `bs`, and takes a FIN or not. -/
structure Moved (w : Watch) (d : Delivery) (bs : Bytes) (fin : Bool) : Prop where
  stored : (w.step d).stored = w.stored ++ bs
  position : w.tcb.state ≠ .synSent → (w.step d).position = w.position + bs.length + fin.toNat
  closed : (w.step d).tcb.peerClosed = (w.tcb.peerClosed || fin)

variable {irs : UInt32} {S : Bytes} {w : Watch} {d : Delivery}

theorem Moved.of_same (tail : (w.tcb.step d.call).rxTail = w.tcb.rxTail)
    (nxt : (w.tcb.step d.call).rcvNxt = w.tcb.rcvNxt)
    (closed : (w.tcb.step d.call).peerClosed = w.tcb.peerClosed) : Moved w d [] false where
  stored := by
    simp [Watch.step, writtenSince, tail]
  position notOpening := by
    simp [Watch.step, notOpening, nxt]
  closed := by
    rw [Bool.or_false]
    exact closed

theorem Moved.of_same_rx (same : (w.tcb.step d.call).rx = w.tcb.rx)
    (closed : (w.tcb.step d.call).peerClosed = w.tcb.peerClosed) : Moved w d [] false :=
  Moved.of_same (congrArg RxView.rxTail same) (congrArg RxView.rcvNxt same) closed

section

variable {g : Segment} (stepped : w.tcb.step d.call = w.tcb.onSegment d.call.env g)

include stepped

theorem Moved.of_segment (room : w.tcb.rxLen ≤ rxCap) (sync : w.tcb.state.synchronised = true) (noReset : g.rst = false)
    (fits : g.seq = w.tcb.rcvNxt → g.payload.length ≤ rxCap - w.tcb.rxLen) :
    Moved w d (if g.seq = w.tcb.rcvNxt then g.payload else []) g.fin := by
  have rx := onSegment_rx d.call.env g w.tcb sync noReset fits
  rw [← stepped] at rx
  have count : (if g.fin = true then 1 else 0) = g.fin.toNat := by
    cases g.fin <;> rfl
  rw [count] at rx
  have fits' : (if g.seq = w.tcb.rcvNxt then g.payload else []).length ≤ rxCap - w.tcb.rxLen := by
    split
    · exact fits ‹_›
    · exact Nat.zero_le _
  obtain ⟨stored, position⟩ := Watch.step_of_store _ _ sync room fits' (toNat_le g.fin) rx
  refine ⟨stored, fun _ => position, ?_⟩
  have closed := onData_peerClosed d.call.env g (w.tcb.onAck g)
  rw [← onSegment_synchronised d.call.env g w.tcb noReset sync, ← stepped, onAck_peerClosed] at closed
  exact closed

/-- The peer's SYN stores nothing; `RCV_NXT` starts at position 1. -/
theorem Moved.of_opening (opening : w.tcb.state = .synSent) (noReset : g.rst = false) : Moved w d [] false := by
  rw [onSegment_opening _ g _ noReset opening] at stepped
  have acked : (w.tcb.onAck g).rxTail = w.tcb.rxTail := congrArg RxView.rxTail (onAck_rx g w.tcb)
  have kept : (w.tcb.step d.call).rxTail = w.tcb.rxTail ∧ (w.tcb.step d.call).peerClosed = w.tcb.peerClosed := by
    rw [stepped]
    unfold onSynSent
    split
    · have tail : ∀ t : Tcb, (sendAck d.call.env t).rxTail = t.rxTail :=
        fun t => congrArg RxView.rxTail (sendAck_rx d.call.env t)
      exact ⟨acked, onAck_peerClosed g w.tcb⟩
    · exact ⟨acked, onAck_peerClosed g w.tcb⟩
  refine ⟨?_, fun notOpening => absurd opening notOpening, ?_⟩
  · simp [Watch.step, writtenSince, kept.1]
  · rw [Bool.or_false]
    exact kept.2

/-- Whatever segment arrives: a FIN is taken by a synchronised connection only. -/
theorem Moved.of_handle (room : w.tcb.rxLen ≤ rxCap) (fits : w.tcb.state.synchronised = true → g.rst = false →
      g.seq = w.tcb.rcvNxt → g.payload.length ≤ rxCap - w.tcb.rxLen) :
    ∃ bs fin, Moved w d bs fin ∧ (fin = true → w.tcb.state.synchronised = true ∧ g.rst = false ∧ g.fin = true) := by
  cases reset : g.rst with
  | true =>
    have failed := stepped.trans (onSegment_reset d.call.env g w.tcb reset)
    refine ⟨[], false, Moved.of_same_rx ?_ ?_, nofun⟩
    · rw [failed]
      rfl
    · rw [failed]
  | false =>
    cases sync : w.tcb.state.synchronised with
    | true => exact ⟨_, g.fin, Moved.of_segment stepped room sync reset (fits sync reset), fun fin => ⟨rfl, rfl, fin⟩⟩
    | false =>
      by_cases opening : w.tcb.state = .synSent
      · exact ⟨[], false, Moved.of_opening stepped opening reset, nofun⟩
      have same := stepped.trans (onSegment_idle d.call.env g w.tcb reset opening sync)
      refine ⟨[], false, Moved.of_same_rx ?_ ?_, nofun⟩
      · rw [same, onAck_rx]
      · rw [same, onAck_peerClosed]

end

theorem Moved.of_release {n : Nat}
    (stepped : w.tcb.step d.call = w.tcb.rxRelease d.call.env n) : Moved w d [] false := by
  have kept : (w.tcb.rxRelease d.call.env n).rxTail = w.tcb.rxTail ∧
      (w.tcb.rxRelease d.call.env n).rcvNxt = w.tcb.rcvNxt := by
    unfold rxRelease
    dsimp only
    split
    · exact ⟨rfl, rfl⟩
    split
    · have same := sendAck_rx d.call.env { w.tcb with rxHead := w.tcb.rxHead + UInt32.ofNat (min n w.tcb.rxLen) }
      exact ⟨congrArg RxView.rxTail same, congrArg RxView.rcvNxt same⟩
    · exact ⟨rfl, rfl⟩
  refine Moved.of_same ?_ ?_ ?_
  · rw [stepped, kept.1]
  · rw [stepped, kept.2]
  · rw [stepped, rxRelease_peerClosed]

/-- Every call of a connection, while what is in order fits the ring. -/
theorem Watch.step_moved
    (h : Delivered irs S w) (peer : FromPeer irs S w d) (ordered : InOrder S w d) (once : FinOnce w d) :
    ∃ bs fin, Moved w d bs fin ∧ (fin = true → w.tcb.state ≠ .synSent ∧ w.tcb.peerClosed = false) := by
  obtain ⟨⟨env, op⟩, sentAt⟩ := d
  cases op with
  | connect ip port => exact absurd peer id
  | send data =>
    exact ⟨[], false, Moved.of_same_rx (send_rx env data w.tcb) (send_peerClosed env data w.tcb), nofun⟩
  | close => exact ⟨[], false, Moved.of_same_rx (close_rx env w.tcb) (close_peerClosed env w.tcb), nofun⟩
  | tick => exact ⟨[], false, Moved.of_same_rx (tick_rx env w.tcb) (tick_peerClosed env w.tcb), nofun⟩
  | release n => exact ⟨[], false, Moved.of_release rfl, nofun⟩
  | segment src body =>
    cases parsed : w.tcb.parse src body with
    | none =>
      have same : w.tcb.step ⟨env, .segment src body⟩ = w.tcb := by
        simp [Tcb.step, Tcb.handle, parsed]
      exact ⟨[], false, Moved.of_same_rx (by rw [same]) (by rw [same]), nofun⟩
    | some g =>
      have stepped : w.tcb.step ⟨env, .segment src body⟩ = w.tcb.onSegment env g := by
        simp [Tcb.step, Tcb.handle, parsed]
      obtain ⟨bs, fin, moved, taken⟩ := Moved.of_handle (d := ⟨⟨env, .segment src body⟩, sentAt⟩) stepped h.room
        (fun sync noReset => (ordered g parsed sync noReset).fits)
      refine ⟨bs, fin, moved, fun isFin => ?_⟩
      obtain ⟨sync, noReset, finSet⟩ := taken isFin
      refine ⟨fun opening => ?_, once g parsed sync noReset finSet⟩
      rw [opening] at sync
      cases sync

/-! ## Runs -/

/-- The invariant: nothing has been closed while the connection opens. -/
structure Ending (irs : UInt32) (S : Bytes) (w : Watch) : Prop where
  delivered : Delivered irs S w
  stream : EndOfStream S w
  opening : w.tcb.state = .synSent → w.tcb.peerClosed = false

theorem Ending.step (h : Ending irs S w)
    (peer : FromPeer irs S w d) (ordered : InOrder S w d) (once : FinOnce w d) : Ending irs S (w.step d) := by
  obtain ⟨bs, fin, moved, first⟩ := Watch.step_moved h.delivered peer ordered once
  have next := h.delivered.step peer ordered
  have noConnect : ∀ ip port, d.call.op ≠ .connect ip port := by
    intro ip port isConnect
    unfold FromPeer at peer
    rw [isConnect] at peer
    exact peer
  by_cases opening : w.tcb.state = .synSent
  · -- Nothing is taken before the SYN: the stream starts at position 1.
    have noFin : fin = false := by
      cases isFin : fin with
      | false => rfl
      | true => exact absurd opening (first isFin).1
    have stillOpen : (w.step d).tcb.peerClosed = false := by
      rw [moved.closed, h.opening opening, noFin]
      rfl
    have start : (w.step d).position = 1 := by
      simp [Watch.step, opening]
    refine ⟨next, ⟨fun _ => ?_, fun closed => ?_⟩, fun _ => stillOpen⟩
    · rcases next.stream with flowing | ⟨_, past⟩
      · exact flowing
      · omega
    · rw [stillOpen] at closed
      cases closed
  · have position := moved.position opening
    have length : (w.step d).stored.length = w.stored.length + bs.length := by
      rw [moved.stored, List.length_append]
    refine ⟨next, ⟨fun flowing => ?_, fun closed => ?_⟩, fun later =>
      absurd ((Kept.step _ noConnect).state later).1 opening⟩
    · rw [moved.closed, or_eq_false_iff] at flowing
      have before := (h.stream.flowing flowing.1).2
      rw [flowing.2, toNat_false] at position
      exact ⟨next.storedSoFar, by omega⟩
    · cases isFin : fin with
      | true =>
        -- The FIN: one more than what is stored, so the whole stream is.
        have before := (h.stream.flowing (first isFin).2).2
        rw [isFin, toNat_true] at position
        rcases next.stream with ⟨_, flowing⟩ | ⟨whole, _⟩
        · omega
        rw [whole] at length
        exact ⟨whole, by omega⟩
      | false =>
        rw [moved.closed, isFin, Bool.or_false] at closed
        obtain ⟨whole, before⟩ := h.stream.ended closed
        rw [isFin, toNat_false] at position
        have longest := next.storedSoFar.length_le
        have nothing : bs.length = 0 := by
          rw [whole] at length
          omega
        have same : (w.step d).stored = S := by
          rw [moved.stored, List.length_eq_zero_iff.mp nothing, List.append_nil, whole]
        exact ⟨same, by omega⟩

theorem Ending.start (irs : UInt32) (S : Bytes) (env : Env) (ip : Ip) (port : UInt16) (s : Tcb) :
    Ending irs S (watching env ip port s) where
  delivered := Delivered.start irs S env ip port s
  stream := ⟨fun _ => .intro List.nil_prefix rfl, nofun⟩
  opening _ := rfl

/-- In every run of a connection whose segments come from one peer, arrive as `InOrder` asks and bring
the FIN once: `PEER_CLOSED` comes on when all of the stream is stored, and `RCV_NXT` goes past what
is stored and once past the FIN, in every state. -/
theorem peerClosed_at_end (irs : UInt32) (S : Bytes) (env : Env) (ip : Ip) (port : UInt16) (s : Tcb)
    (ds : List Delivery) (admitted : Along Watch.step (fun w d => FromPeer irs S w d ∧ InOrder S w d ∧ FinOnce w d)
      (watching env ip port s) ds) : Throughout Watch.step (EndOfStream S) (watching env ip port s) ds := by
  have ending := admitted.throughout (Ending irs S) (fun _ _ h ok => h.step ok.1 ok.2.1 ok.2.2)
    (Ending.start irs S env ip port s)
  exact ending.mono fun _ h => h.stream

theorem peerClosed_after_fin :
    (run Watch.step opened [delivery 0 0x12 [], delivery 1 0x11 [7, 8]]).tcb.peerClosed = true ∧
    Throughout Watch.step (EndOfStream [7, 8]) opened [delivery 0 0x12 [], delivery 1 0x11 [7, 8]] :=
  ⟨by decide, peerClosed_at_end 100 [7, 8] quietEnv peerIp 80 {} _ (by decide)⟩

/-- The FIN overtakes the only octet of the stream: the stream counts as ended with nothing stored. -/
theorem early_fin_ends_stream :
    ¬ ∀ (irs : UInt32) (S : Bytes) (env : Env) (ip : Ip) (port : UInt16) (s : Tcb) (ds : List Delivery),
      Along Watch.step (FromPeer irs S) (watching env ip port s) ds →
      Throughout Watch.step (EndOfStream S) (watching env ip port s) ds := by
  intro claim
  have all := claim 100 [7] quietEnv peerIp 80 {} [delivery 0 0x12 [], delivery 2 0x11 []] (by decide)
  have whole := (all.last.ended (by decide)).1
  exact absurd whole (by decide)

end BarryOS.Net.Tcp
