import BarryOS.Lib.Run
import BarryOS.Net.TcpFrame

/-!
# In-order delivery

The peer's sequence space is numbered from its SYN: the SYN is position 0, octet
`j` of its stream `S` is position `j + 1`, and a FIN is position `S.length + 1`.
`Watch` follows a connection and keeps what a reader of the ring could have seen:
the octets ever stored, in order, and how far `RCV_NXT` has been moved past the
peer's initial sequence number.

`handle` moves `RCV_NXT` in two places without storing what it moves past: over
the part of a payload that the ring has no room for, and over a FIN that arrives
ahead of data. Where neither happens (`InOrder`) the stored octets are a prefix of
the stream in every run (`stored_prefix_of_inOrder`); `early_fin_skips_an_octet` is
a run in which the second happens.
-/

namespace BarryOS.Net.Tcp

open Lib Tcb List
open UInt32 (toNat_add toNat_ofNat' toNat_sub)

/-! ## Storing what arrives -/

/-- Store octets behind the ones already there, and move `RCV_NXT` with them. -/
def RxView.store (v : RxView) (bs : Bytes) : RxView :=
  ⟨v.rcvNxt + UInt32.ofNat bs.length, v.rxHead, v.rxTail + UInt32.ofNat bs.length,
    ringWrite rxCap v.rxBuf v.rxTail.toNat bs⟩

@[simp] theorem RxView.store_nil (v : RxView) : v.store [] = v := by
  simp [RxView.store, ringWrite]

/-- What `handle` stores of a segment that fits: all of it in order, else nothing. -/
theorem Tcb.takePayload_rx (g : Segment) (s : Tcb) (fits : g.seq = s.rcvNxt → g.payload.length ≤ rxCap - s.rxLen) :
    (s.takePayload g).2.rx = s.rx.store (if g.seq = s.rcvNxt then g.payload else []) := by
  unfold takePayload
  by_cases empty : g.payload = []
  · simp [empty]
  by_cases inOrder : g.seq = s.rcvNxt
  · have pos : 0 < g.payload.length := length_pos_iff.mpr empty
    have enough := fits inOrder
    have room : ¬ s.rxLen ≥ rxCap := by omega
    have whole : min g.payload.length (rxCap - s.rxLen) = g.payload.length := by omega
    simp [empty, inOrder, appendRx, room, whole, rx, RxView.store, ringWrite_mod]
  · simp [inOrder]

/-! ## Watching a connection -/

/-- A call, with the position the peer sent its segment at (read only for segments). -/
structure Delivery where
  call : Call
  sentAt : Nat

/-- A connection under observation. -/
structure Watch where
  tcb : Tcb
  /-- The octets ever stored in the ring, in order. -/
  stored : Bytes := []
  /-- How far `RCV_NXT` stands past the peer's initial sequence number. -/
  position : Nat := 1

/-- The octets the ring holds between the old and the new `RX_TAIL`. -/
def Tcb.writtenSince (old new : Tcb) : Bytes :=
  ringRead rxCap new.rxBuf old.rxTail.toNat (new.rxTail - old.rxTail).toNat

def Watch.step (w : Watch) (d : Delivery) : Watch :=
  let tcb := w.tcb.step d.call
  { tcb := tcb
    stored := w.stored ++ w.tcb.writtenSince tcb
    position := if w.tcb.state = .synSent then 1
      else w.position + (tcb.rcvNxt - w.tcb.rcvNxt).toNat }

/-- Where the payload of a segment sent at `p` starts: after the SYN, if it carries one. -/
def Segment.payloadAt (g : Segment) (p : Nat) : Nat := p + if g.syn then 1 else 0

/-- The segment was sent at position `p` by a peer whose initial sequence number
is `irs` and whose stream is `S`. -/
@[mk_iff] structure SentAt (irs : UInt32) (S : Bytes) (g : Segment) (p : Nat) : Prop where
  seq : g.seq = irs + UInt32.ofNat p
  syn : g.syn = true → p = 0
  payload : g.payload ≠ [] → 1 ≤ g.payloadAt p ∧ g.payload <+: S.drop (g.payloadAt p - 1)
  fin : g.fin = true → g.payloadAt p + g.payload.length = S.length + 1

/-- The calls of one connection whose segments all come from that peer. -/
def FromPeer (irs : UInt32) (S : Bytes) (w : Watch) (d : Delivery) : Prop :=
  match d.call.op with
  | .connect _ _ => False
  | .segment src body => ∀ g, w.tcb.parse src body = some g → SentAt irs S g d.sentAt
  | _ => True

/-- The condition on a segment, in the state it arrives in: what is in order fits the
ring, a FIN is in order or comes after the whole stream, and the segment is not a
sequence-number wrap away from the receiver. -/
@[mk_iff] structure SegmentInOrder (S : Bytes) (w : Watch) (g : Segment) (p : Nat) : Prop where
  fits : g.seq = w.tcb.rcvNxt → g.payload.length ≤ rxCap - w.tcb.rxLen
  fin : g.fin = true → g.seq = w.tcb.rcvNxt ∨ w.stored = S
  near : p < w.position + 2 ^ 32 ∧ w.position < p + 2 ^ 32

/-- Every segment that a synchronised connection takes is `SegmentInOrder`. -/
def InOrder (S : Bytes) (w : Watch) (d : Delivery) : Prop :=
  match d.call.op with
  | .segment src body => ∀ g, w.tcb.parse src body = some g →
      w.tcb.state.synchronised = true → g.rst = false → SegmentInOrder S w g d.sentAt
  | _ => True

section Decide

variable (irs : UInt32) (S : Bytes) (w : Watch) (g : Segment) (p : Nat)

instance : Decidable (SentAt irs S g p) := decidable_of_iff' _ (sentAt_iff ..)

instance : Decidable (SegmentInOrder S w g p) := decidable_of_iff' _ (segmentInOrder_iff ..)

instance (d : Delivery) : Decidable (FromPeer irs S w d) :=
  match d with
  | ⟨⟨_, .segment src body⟩, p⟩ => inferInstanceAs (Decidable (∀ g ∈ w.tcb.parse src body, SentAt irs S g p))
  | ⟨⟨_, .connect ..⟩, _⟩ => isFalse id
  | ⟨⟨_, .send _⟩, _⟩ | ⟨⟨_, .close⟩, _⟩ | ⟨⟨_, .tick⟩, _⟩ | ⟨⟨_, .release _⟩, _⟩ => isTrue trivial

instance (d : Delivery) : Decidable (InOrder S w d) :=
  match d with
  | ⟨⟨_, .segment src body⟩, p⟩ => inferInstanceAs (Decidable (∀ g ∈ w.tcb.parse src body,
      w.tcb.state.synchronised = true → g.rst = false → SegmentInOrder S w g p))
  | ⟨⟨_, .connect ..⟩, _⟩ | ⟨⟨_, .send _⟩, _⟩ | ⟨⟨_, .close⟩, _⟩ | ⟨⟨_, .tick⟩, _⟩
  | ⟨⟨_, .release _⟩, _⟩ => isTrue trivial

end Decide

/-! ## The invariant -/

/-- `RCV_NXT` and the stored octets stand at the same place of the peer's stream, until
the FIN moves `RCV_NXT` past the end. -/
structure Delivered (irs : UInt32) (S : Bytes) (w : Watch) : Prop where
  room : w.tcb.rxLen ≤ rxCap
  opening : w.tcb.state = .synSent → w.stored = []
  seq : w.tcb.state.synchronised = true → w.tcb.rcvNxt = irs + UInt32.ofNat w.position
  stream : (w.stored <+: S ∧ w.position = w.stored.length + 1) ∨ (w.stored = S ∧ S.length + 2 ≤ w.position)

variable {irs : UInt32} {S : Bytes} {w : Watch} {d : Delivery}

theorem Delivered.storedSoFar (h : Delivered irs S w) : w.stored <+: S := by
  rcases h.stream with ⟨h, _⟩ | ⟨h, _⟩
  · exact h
  · exact h ▸ prefix_refl S

theorem position_unique {p q : Nat} (near : p < q + 2 ^ 32 ∧ q < p + 2 ^ 32)
    (same : irs + UInt32.ofNat p = irs + UInt32.ofNat q) : p = q := by
  have h := congrArg UInt32.toNat same
  simp only [toNat_add, toNat_ofNat'] at h
  omega

theorem append_prefix_of_drop {S a b : Bytes} (ha : a <+: S) (hb : b <+: S.drop a.length) : a ++ b <+: S := by
  obtain ⟨rest, rfl⟩ := ha
  rw [drop_left] at hb
  exact (prefix_append_right_inj a).mpr hb

/-- A call that stores nothing, does not move `RCV_NXT` and does not synchronise the
connection keeps the invariant. -/
theorem Delivered.of_unmoved (h : Delivered irs S w) (hr : (w.tcb.step d.call).rcvNxt = w.tcb.rcvNxt)
    (ht : (w.tcb.step d.call).rxTail = w.tcb.rxTail) (room : (w.tcb.step d.call).rxLen ≤ w.tcb.rxLen)
    (opening : (w.tcb.step d.call).state = .synSent → w.tcb.state = .synSent)
    (sync : (w.tcb.step d.call).state.synchronised = true → w.tcb.state.synchronised = true) :
    Delivered irs S (w.step d) := by
  have stored : (w.step d).stored = w.stored := by
    simp [Watch.step, writtenSince, ht]
  refine ⟨Nat.le_trans room h.room, ?_, ?_, ?_⟩
  · intro hs
    rw [stored]
    exact h.opening (opening hs)
  · intro hs
    have was := sync hs
    have notOpening : w.tcb.state ≠ .synSent := by
      intro e
      simp [e, State.synchronised] at was
    simpa [Watch.step, notOpening, hr] using h.seq was
  · rw [stored]
    by_cases notOpening : w.tcb.state = .synSent
    · left
      have empty := h.opening notOpening
      exact ⟨h.storedSoFar, by simp [Watch.step, notOpening, empty]⟩
    · simpa [Watch.step, notOpening, hr] using h.stream

theorem Delivered.of_same_rx (h : Delivered irs S w) (same : (w.tcb.step d.call).rx = w.tcb.rx)
    (opening : (w.tcb.step d.call).state = .synSent → w.tcb.state = .synSent)
    (sync : (w.tcb.step d.call).state.synchronised = true → w.tcb.state.synchronised = true) :
    Delivered irs S (w.step d) := by
  have hh : (w.tcb.step d.call).rxHead = w.tcb.rxHead := congrArg RxView.rxHead same
  have ht : (w.tcb.step d.call).rxTail = w.tcb.rxTail := congrArg RxView.rxTail same
  refine h.of_unmoved (congrArg RxView.rcvNxt same) ht ?_ opening sync
  simp [rxLen, hh, ht]

/-- A call that stores `bs` and moves `RCV_NXT` over them and over `extra` more, as it is watched. -/
theorem Watch.step_of_store (bs : Bytes) (extra : Nat)
    (sync : w.tcb.state.synchronised = true) (room : w.tcb.rxLen ≤ rxCap)
    (fits : bs.length ≤ rxCap - w.tcb.rxLen) (small : extra ≤ 1) (rx : (w.tcb.step d.call).rx =
      { w.tcb.rx.store bs with rcvNxt := (w.tcb.rx.store bs).rcvNxt + UInt32.ofNat extra }) :
    (w.step d).stored = w.stored ++ bs ∧ (w.step d).position = w.position + bs.length + extra := by
  have hr : (w.tcb.step d.call).rcvNxt =
      w.tcb.rcvNxt + UInt32.ofNat bs.length + UInt32.ofNat extra := congrArg RxView.rcvNxt rx
  have ht : (w.tcb.step d.call).rxTail = w.tcb.rxTail + UInt32.ofNat bs.length := congrArg RxView.rxTail rx
  have hb : (w.tcb.step d.call).rxBuf = ringWrite rxCap w.tcb.rxBuf w.tcb.rxTail.toNat bs := congrArg RxView.rxBuf rx
  have cap : rxCap = 262144 := rfl
  have notOpening : w.tcb.state ≠ .synSent := by
    intro e
    simp [e, State.synchronised] at sync
  have moved : (w.tcb.rxTail + UInt32.ofNat bs.length - w.tcb.rxTail).toNat = bs.length := by
    simp only [toNat_sub, toNat_add, toNat_ofNat']
    have := w.tcb.rxTail.toNat_lt
    omega
  have advanced : (w.tcb.rcvNxt + UInt32.ofNat bs.length + UInt32.ofNat extra -
      w.tcb.rcvNxt).toNat = bs.length + extra := by
    simp only [toNat_sub, toNat_add, toNat_ofNat']
    have := w.tcb.rcvNxt.toNat_lt
    omega
  constructor
  · simp only [Watch.step, writtenSince, ht, hb, moved]
    rw [ringRead_write _ _ _ _ (by omega)]
  · simp only [Watch.step, notOpening, ↓reduceIte, hr]
    omega

/-- A call that stores `bs` and moves `RCV_NXT` over them and over `extra` more keeps the
invariant, when the stream still agrees afterwards. -/
theorem Delivered.of_store (bs : Bytes) (extra : Nat) (h : Delivered irs S w) (sync : w.tcb.state.synchronised = true)
    (fits : bs.length ≤ rxCap - w.tcb.rxLen) (small : extra ≤ 1) (rx : (w.tcb.step d.call).rx =
      { w.tcb.rx.store bs with rcvNxt := (w.tcb.rx.store bs).rcvNxt + UInt32.ofNat extra })
    (open' : (w.tcb.step d.call).state ≠ .synSent)
    (stream : (w.stored ++ bs <+: S ∧ w.position + bs.length + extra = (w.stored ++ bs).length + 1) ∨
      (w.stored ++ bs = S ∧ S.length + 2 ≤ w.position + bs.length + extra)) :
    Delivered irs S (w.step d) := by
  have hr : (w.tcb.step d.call).rcvNxt =
      w.tcb.rcvNxt + UInt32.ofNat bs.length + UInt32.ofNat extra := congrArg RxView.rcvNxt rx
  have hh : (w.tcb.step d.call).rxHead = w.tcb.rxHead := congrArg RxView.rxHead rx
  have ht : (w.tcb.step d.call).rxTail = w.tcb.rxTail + UInt32.ofNat bs.length := congrArg RxView.rxTail rx
  have room := h.room
  obtain ⟨stored, position⟩ := Watch.step_of_store bs extra sync room fits small rx
  refine ⟨?_, fun e => absurd e open', ?_, ?_⟩
  · simp only [Watch.step, rxLen, hh, ht] at room ⊢
    simp only [rxLen] at fits
    simp only [toNat_sub, toNat_add, toNat_ofNat'] at room fits ⊢
    omega
  · intro _
    show (w.tcb.step d.call).rcvNxt = _
    rw [hr, h.seq sync, ← UInt32.toNat_inj]
    simp only [toNat_add, toNat_ofNat']
    omega
  · rw [stored, position]
    exact stream

/-- A synchronised connection's segment, in the terms of `of_store`. -/
theorem onSegment_rx (env : Env) (g : Segment) (s : Tcb) (sync : s.state.synchronised = true)
    (noReset : g.rst = false) (fits : g.seq = s.rcvNxt → g.payload.length ≤ rxCap - s.rxLen) : (s.onSegment env g).rx =
      let v := s.rx.store (if g.seq = s.rcvNxt then g.payload else [])
      { v with rcvNxt := v.rcvNxt + UInt32.ofNat (if g.fin then 1 else 0) } := by
  have hr : (s.onAck g).rcvNxt = s.rcvNxt := congrArg RxView.rcvNxt (onAck_rx g s)
  have hh : (s.onAck g).rxHead = s.rxHead := congrArg RxView.rxHead (onAck_rx g s)
  have ht : (s.onAck g).rxTail = s.rxTail := congrArg RxView.rxTail (onAck_rx g s)
  have taken := takePayload_rx g (s.onAck g) (by simpa [hr, rxLen, hh, ht] using fits)
  rw [hr, onAck_rx] at taken
  have takenNxt : ((s.onAck g).takePayload g).2.rcvNxt =
      (s.rx.store (if g.seq = s.rcvNxt then g.payload else [])).rcvNxt :=
    congrArg RxView.rcvNxt taken
  rw [onSegment_synchronised env g s noReset sync, onData_rx]
  split
  · rw [taken, takenNxt]
    rfl
  rw [taken]
  simp

section

variable {g : Segment} (h : Delivered irs S w) (stepped : w.tcb.step d.call = w.tcb.onSegment d.call.env g)

include h stepped

/-- A segment that a synchronised connection takes in order keeps the invariant. -/
theorem Delivered.of_segment (sync : w.tcb.state.synchronised = true) (noReset : g.rst = false)
    (sent : SentAt irs S g d.sentAt) (ordered : SegmentInOrder S w g d.sentAt) : Delivered irs S (w.step d) := by
  have notOpening : w.tcb.state ≠ .synSent := by
    intro e
    simp [e, State.synchronised] at sync
  have rx := onSegment_rx d.call.env g w.tcb sync noReset ordered.fits
  rw [← stepped] at rx
  have open' : (w.tcb.step d.call).state ≠ .synSent := by
    rw [stepped, onSegment_synchronised _ g _ noReset sync]
    rcases onData_state d.call.env g (w.tcb.onAck g) with e | e | e
    · rwa [e, onAck_state]
    · simp [e]
    · simp [e]
  by_cases inOrder : g.seq = w.tcb.rcvNxt
  · have here : d.sentAt = w.position := position_unique ordered.near (by rw [← sent.seq, inOrder, h.seq sync])
    have past : 1 ≤ w.position := by
      rcases h.stream with ⟨_, e⟩ | ⟨_, e⟩ <;> omega
    have noSyn : g.syn = false := by
      by_contra hs
      have := sent.syn (by simpa using hs)
      omega
    have payloadHere : g.payloadAt d.sentAt = w.position := by
      simp [Segment.payloadAt, noSyn, here]
    simp only [inOrder] at rx
    refine h.of_store g.payload _ sync (ordered.fits inOrder) (by split <;> omega) rx open' ?_
    rcases h.stream with ⟨pre, len⟩ | ⟨whole, len⟩
    · have pre' : w.stored ++ g.payload <+: S := by
        by_cases empty : g.payload = []
        · simpa [empty] using pre
        have agrees := (sent.payload empty).2
        rw [payloadHere, len] at agrees
        exact append_prefix_of_drop pre agrees
      by_cases fin : g.fin = true
      · right
        have ends := sent.fin fin
        refine ⟨pre'.eq_of_length ?_, ?_⟩
        · simp only [length_append]
          omega
        · simp only [fin, ↓reduceIte]
          omega
      · left
        refine ⟨pre', ?_⟩
        simp only [fin, Bool.false_eq_true, ↓reduceIte, length_append]
        omega
    · -- The whole stream is stored: a segment here has nothing left to carry.
      right
      have empty : g.payload = [] := by
        by_contra hne
        have agrees := (sent.payload hne).2
        rw [drop_eq_nil_of_le (by omega)] at agrees
        exact hne (prefix_nil.mp agrees)
      simp only [empty, append_nil]
      exact ⟨whole, by omega⟩
  · simp only [inOrder] at rx
    refine h.of_store [] _ sync (by simp) (by split <;> omega) rx open' ?_
    simp only [append_nil]
    by_cases fin : g.fin = true
    · right
      have whole := (ordered.fin fin).resolve_left inOrder
      refine ⟨whole, ?_⟩
      simp only [fin, ↓reduceIte]
      rcases h.stream with ⟨_, len⟩ | ⟨_, len⟩
      · rw [whole] at len
        omega
      · omega
    · simpa [fin] using h.stream

/-- The peer's SYN puts `RCV_NXT` at position 1; anything else leaves the connection
opening, or fails it. -/
theorem Delivered.of_opening (opening : w.tcb.state = .synSent) (noReset : g.rst = false)
    (sent : SentAt irs S g d.sentAt) : Delivered irs S (w.step d) := by
  rw [onSegment_opening _ g _ noReset opening] at stepped
  have empty := h.opening opening
  by_cases answered : (g.syn && g.hasAck) = true
  · have seq : g.seq = irs := by
      have zero := sent.syn (by simp_all)
      have hseq := sent.seq
      simpa [zero] using hseq
    have acked := onAck_rx g w.tcb
    have rx : (w.tcb.step d.call).rx = { w.tcb.rx with rcvNxt := irs + 1 } := by
      rw [stepped, ← acked, ← seq]
      simp only [onSynSent, answered]
      rfl
    have hh : (w.tcb.step d.call).rxHead = w.tcb.rxHead := congrArg RxView.rxHead rx
    have ht : (w.tcb.step d.call).rxTail = w.tcb.rxTail := congrArg RxView.rxTail rx
    have stored : (w.step d).stored = [] := by
      simp [Watch.step, writtenSince, ht, empty]
    have position : (w.step d).position = 1 := by
      simp [Watch.step, opening]
    refine ⟨?_, fun _ => stored, ?_, .inl ⟨?_, ?_⟩⟩
    · simpa [Watch.step, rxLen, hh, ht] using h.room
    · intro _
      rw [position]
      exact congrArg RxView.rcvNxt rx
    · rw [stored]
      exact nil_prefix
    · rw [stored, position]
      rfl
  · have same : w.tcb.step d.call = w.tcb.onAck g := by
      rw [stepped]
      simp only [onSynSent, answered, Bool.false_eq_true, ↓reduceIte]
    refine h.of_same_rx ?_ ?_ ?_
    · rw [same, onAck_rx]
    · rw [same, onAck_state]
      exact id
    · rw [same, onAck_state]
      exact id

/-- Whatever segment arrives, the invariant is kept. -/
theorem Delivered.of_handle (sent : SentAt irs S g d.sentAt)
    (ordered : w.tcb.state.synchronised = true → g.rst = false → SegmentInOrder S w g d.sentAt) :
    Delivered irs S (w.step d) := by
  cases reset : g.rst with
  | true =>
    have failed := stepped.trans (onSegment_reset d.call.env g w.tcb reset)
    refine h.of_same_rx ?_ ?_ ?_
    · rw [failed]
      rfl
    · rw [failed]
      simp
    · rw [failed]
      simp [State.synchronised]
  | false =>
    cases sync : w.tcb.state.synchronised with
    | true => exact h.of_segment stepped sync reset sent (ordered sync reset)
    | false =>
      by_cases opening : w.tcb.state = .synSent
      · exact h.of_opening stepped opening reset sent
      have same := onSegment_idle d.call.env g w.tcb reset opening sync
      refine h.of_same_rx ?_ ?_ ?_
      · rw [stepped, same, onAck_rx]
      · rw [stepped, same, onAck_state]
        exact id
      · rw [stepped, same, onAck_state]
        exact id

end

/-- The reader gives back room; nothing stored and no position moves. -/
theorem Delivered.of_release {n : Nat}
    (h : Delivered irs S w) (stepped : w.tcb.step d.call = w.tcb.rxRelease d.call.env n) :
    Delivered irs S (w.step d) := by
  have rx : (w.tcb.step d.call).rx = { w.tcb.rx with rxHead := w.tcb.rxHead + UInt32.ofNat (min n w.tcb.rxLen) } := by
    rw [stepped]
    unfold rxRelease
    dsimp only
    split
    next none => simp [none, rx]
    split
    · rw [sendAck_rx]
      rfl
    · rfl
  have state : (w.tcb.step d.call).state = w.tcb.state := by
    rw [stepped, rxRelease_state]
  have hh : (w.tcb.step d.call).rxHead = w.tcb.rxHead + UInt32.ofNat (min n w.tcb.rxLen) := congrArg RxView.rxHead rx
  have ht : (w.tcb.step d.call).rxTail = w.tcb.rxTail := congrArg RxView.rxTail rx
  refine h.of_unmoved (congrArg RxView.rcvNxt rx) ht ?_ (by rw [state]; exact id) (by rw [state]; exact id)
  simp only [rxLen, hh, ht, toNat_sub, toNat_add, toNat_ofNat']
  have := w.tcb.rxHead.toNat_lt
  omega

theorem Delivered.step (h : Delivered irs S w) (peer : FromPeer irs S w d) (ordered : InOrder S w d) :
    Delivered irs S (w.step d) := by
  obtain ⟨⟨env, op⟩, sentAt⟩ := d
  cases op with
  | connect ip port => exact absurd peer id
  | send data =>
    have state := send_state env data w.tcb
    refine h.of_same_rx (send_rx env data w.tcb) ?_ ?_
    · show (w.tcb.send env data).2.state = _ → _
      rw [state]
      exact id
    · show (w.tcb.send env data).2.state.synchronised = _ → _
      rw [state]
      exact id
  | close =>
    refine h.of_same_rx (close_rx env w.tcb) ?_ ?_
    · show (w.tcb.close env).state = _ → _
      rcases close_state env w.tcb with e | ⟨_, e⟩ <;> simp [e]
    · show (w.tcb.close env).state.synchronised = _ → _
      rcases close_state env w.tcb with e | ⟨e', e⟩
      · simp [e]
      · simp [e', State.synchronised]
  | tick =>
    refine h.of_same_rx (tick_rx env w.tcb) ?_ ?_
    · show (w.tcb.tick env).state = _ → _
      rcases tick_state env w.tcb with e | e <;> simp [e]
    · show (w.tcb.tick env).state.synchronised = _ → _
      rcases tick_state env w.tcb with e | e <;> simp [e, State.synchronised]
  | release n => exact h.of_release rfl
  | segment src body =>
    cases parsed : w.tcb.parse src body with
    | none =>
      have same : w.tcb.step ⟨env, .segment src body⟩ = w.tcb := by
        simp [step, handle, parsed]
      exact h.of_same_rx (by rw [same]) (by rw [same]; exact id) (by rw [same]; exact id)
    | some g =>
      refine h.of_handle (g := g) ?_ (peer g parsed) (ordered g parsed)
      simp [step, handle, parsed]

/-- The connection as `connect` leaves it, with nothing seen yet. -/
def watching (env : Env) (ip : Ip) (port : UInt16) (s : Tcb) : Watch :=
  { tcb := (s.connect env ip port).2 }

theorem Delivered.start (irs : UInt32) (S : Bytes) (env : Env) (ip : Ip) (port : UInt16) (s : Tcb) :
    Delivered irs S (watching env ip port s) := by
  refine ⟨?_, fun _ => rfl, ?_, .inl (.intro nil_prefix rfl)⟩
  · simp [watching, connect, emit, reset, rxLen]
  · simp [watching, connect, emit, State.synchronised]

/-- In every run of a connection whose segments come from one peer and arrive as `InOrder`
asks, what was ever stored is a prefix of the peer's stream. -/
theorem stored_prefix_of_inOrder (irs : UInt32) (S : Bytes) (env : Env) (ip : Ip) (port : UInt16)
    (s : Tcb) (ds : List Delivery) (admitted : Along Watch.step (fun w d => FromPeer irs S w d ∧ InOrder S w d)
      (watching env ip port s) ds) : (run Watch.step (watching env ip port s) ds).stored <+: S := by
  have kept : ∀ w d, Delivered irs S w → FromPeer irs S w d ∧ InOrder S w d →
      Delivered irs S (w.step d) := fun w d h ok => h.step ok.1 ok.2
  exact (admitted.invariant (Delivered irs S) kept (Delivered.start irs S env ip port s)).storedSoFar

/-! ## Two short runs

The peer's initial sequence number is 100. -/

def delivery (p : Nat) (flags : UInt8) (payload : Bytes) : Delivery :=
  ⟨⟨quietEnv, .segment peerIp (peerSegment (100 + UInt32.ofNat p) flags 1 payload)⟩, p⟩

def opened : Watch := watching quietEnv peerIp 80 {}

theorem stored_prefix_of_two_segments :
    (run Watch.step opened [delivery 0 0x12 [], delivery 1 0x10 [7, 8]]).stored = [7, 8] ∧
    (run Watch.step opened [delivery 0 0x12 [], delivery 1 0x10 [7, 8]]).stored <+: [7, 8, 9] :=
  ⟨by decide, stored_prefix_of_inOrder 100 [7, 8, 9] quietEnv peerIp 80 {} _ (by decide)⟩

/-- A FIN that overtakes the two octets before it: `RCV_NXT` moves over the first of them,
and the second is then stored in its place. -/
theorem early_fin_skips_an_octet : ¬ ∀ (irs : UInt32) (S : Bytes) (env : Env) (ip : Ip) (port : UInt16) (s : Tcb)
      (ds : List Delivery), Along Watch.step (FromPeer irs S) (watching env ip port s) ds →
      (run Watch.step (watching env ip port s) ds).stored <+: S := by
  intro claim
  have stored := claim 100 [7, 8] quietEnv peerIp 80 {}
    [delivery 0 0x12 [], delivery 3 0x11 [], delivery 2 0x10 [8]] (by decide)
  exact absurd stored (by decide)

end BarryOS.Net.Tcp
