import BarryOS.Net.TcpPending

/-!
# The receive ring and the window

The counters of the ring run freely and wrap at 2^32, which the capacity divides, so the ring is a
queue of at most `rxCap` octets through any number of wraps. The window is the room in that queue as
far as the 16-bit field can say it. `Inbox` is the receiver without counters: the queue, and the
number of sequence numbers it has taken from the peer, so that the right edge of the window is a
number that can be compared.
-/

namespace BarryOS.Net.Tcp

open Lib Tcb List

/-! ## The ring as a queue -/

inductive RingCall where
  | append (data : Bytes)
  | release (env : Env) (n : Nat)
  | readAt (offset len : Nat)

/-- The number and the octets that a call gives back, and the state it leaves. -/
def Tcb.ringCall (s : Tcb) : RingCall → (Nat × Bytes) × Tcb
  | .append data => (((s.appendRx data).1, []), (s.appendRx data).2)
  | .release env n => ((0, []), s.rxRelease env n)
  | .readAt offset len => (((s.rxReadAt offset len).length, s.rxReadAt offset len), s)

/-- The same calls on a queue of at most `rxCap` octets. -/
def queueCall (q : Bytes) : RingCall → (Nat × Bytes) × Bytes
  | .append data => ((min data.length (rxCap - q.length), []), q ++ data.take (rxCap - q.length))
  | .release _ n => ((0, []), q.drop n)
  | .readAt offset len => ((((q.drop offset).take len).length, (q.drop offset).take len), q)

/-- What the calls of a run give back, and the state behind them. -/
def answers {σ : Type} (call : σ → RingCall → (Nat × Bytes) × σ) : σ → List RingCall → List (Nat × Bytes) × σ
  | s, [] => ([], s)
  | s, c :: cs =>
    let rest := answers call (call s c).2 cs
    ((call s c).1 :: rest.1, rest.2)

/-- The room in a queue, as far as the field can say it. -/
def windowOf (q : Bytes) : Nat := min (rxCap - q.length) 0xFFFF

variable {s : Tcb}

namespace Tcb

theorem window_pending (s : Tcb) : s.window.toNat = windowOf s.pending := by
  rw [window, UInt16.toNat_ofNat', windowOf, pending_length]
  omega

theorem appendRx_pending (s : Tcb) (data : Bytes) : (s.appendRx data).1 = min data.length (rxCap - s.rxLen) ∧
      (s.appendRx data).2.pending = s.pending ++ data.take (rxCap - s.rxLen) := by
  unfold appendRx
  dsimp only
  split
  next full => simp [Nat.sub_eq_zero_of_le full]
  refine ⟨rfl, ?_⟩
  have part : data.take (min data.length (rxCap - s.rxLen)) = data.take (rxCap - s.rxLen) := by
    rw [← take_take, take_of_length_le (by rw [length_take]; exact Nat.min_le_right _ _)]
  have count : min data.length (rxCap - s.rxLen) = (data.take (rxCap - s.rxLen)).length := by
    rw [length_take, Nat.min_comm]
  rw [part, count, ringWrite_mod]
  -- `pending` does not look at `RCV_NXT`
  let stored : Tcb := { s with
    rcvNxt := s.rcvNxt + UInt32.ofNat (data.take (rxCap - s.rxLen)).length
    rxBuf := ringWrite rxCap s.rxBuf s.rxTail.toNat (data.take (rxCap - s.rxLen))
    rxTail := s.rxTail + UInt32.ofNat (data.take (rxCap - s.rxLen)).length }
  have fits : s.rxLen + (data.take (rxCap - s.rxLen)).length ≤ rxCap := by
    omega
  exact pending_store (t := stored) rfl fits

theorem appendRx_room (room : s.rxLen ≤ rxCap) (data : Bytes) : (s.appendRx data).2.rxLen ≤ rxCap := by
  rw [← pending_length, (s.appendRx_pending data).2, length_append, length_take, pending_length]
  omega

theorem rxRelease_room (room : s.rxLen ≤ rxCap) (env : Env) (n : Nat) : (s.rxRelease env n).rxLen ≤ rxCap := by
  rw [← pending_length, rxRelease_pending, length_drop, pending_length]
  omega

theorem ringCall_queue (room : s.rxLen ≤ rxCap) (c : RingCall) :
    (s.ringCall c).1 = (queueCall s.pending c).1 ∧ (s.ringCall c).2.pending = (queueCall s.pending c).2 ∧
      (s.ringCall c).2.rxLen ≤ rxCap := by
  cases c with
  | append data =>
    obtain ⟨count, stored⟩ := s.appendRx_pending data
    simp only [ringCall, queueCall, pending_length]
    exact ⟨by rw [count], stored, appendRx_room room data⟩
  | release env n => exact ⟨rfl, rxRelease_pending env n s, rxRelease_room room env n⟩
  | readAt offset len =>
    simp only [ringCall, queueCall, rxReadAt_pending]
    exact ⟨trivial, trivial, room⟩

theorem answers_queue (cs : List RingCall) (room : s.rxLen ≤ rxCap) :
    (answers ringCall s cs).1 = (answers queueCall s.pending cs).1 ∧
      (answers ringCall s cs).2.pending = (answers queueCall s.pending cs).2 := by
  induction cs generalizing s with
  | nil => exact ⟨rfl, rfl⟩
  | cons c cs ih =>
    obtain ⟨answer, queue, room'⟩ := ringCall_queue room c
    obtain ⟨rest, last⟩ := ih room'
    simp only [answers, answer, rest, last, queue]
    exact ⟨trivial, trivial⟩

end Tcb

/-! ## The receiver -/

/-- What the receiver holds, and how many sequence numbers it has taken. -/
structure Inbox where
  queue : Bytes
  taken : Nat := 0

namespace Inbox

/-- Data in order and a FIN; what does not fit is dropped, and taken all the same. -/
def take (q : Inbox) (data : Bytes) (fin : Bool) : Inbox :=
  ⟨q.queue ++ data.take (rxCap - q.queue.length), q.taken + data.length + if fin then 1 else 0⟩

def release (q : Inbox) (n : Nat) : Inbox := { q with queue := q.queue.drop n }

/-- The right edge of the window. -/
def edge (q : Inbox) : Nat := q.taken + windowOf q.queue

variable (q : Inbox)

theorem edge_take (data : Bytes) (fin : Bool) : q.edge ≤ (q.take data fin).edge := by
  simp only [edge, take, windowOf, length_append, length_take]
  omega

theorem edge_release (n : Nat) : q.edge ≤ (q.release n).edge := by
  simp only [edge, release, windowOf, length_drop]
  omega

/-- What a call of the connection is to the receiver. -/
def step (q : Inbox) (s : Tcb) (c : Call) : Inbox :=
  match c.op with
  | .segment src body =>
    match s.parse src body with
    | some g =>
      if s.state.synchronised && !g.rst then q.take (if g.seq = s.rcvNxt then g.payload else []) g.fin else q
    | none => q
  | .release n => q.release n
  | _ => q

theorem edge_step (s : Tcb) (c : Call) : q.edge ≤ (q.step s c).edge := by
  unfold step
  split
  · split
    · split
      · exact q.edge_take _ _
      · exact le_rfl
    · exact le_rfl
  · exact q.edge_release _
  · exact le_rfl

/-- The control block of this receiver, on a connection that began at `irs`. -/
structure Of (irs : UInt32) (q : Inbox) (s : Tcb) : Prop where
  queue : s.pending = q.queue
  room : s.rxLen ≤ rxCap
  rcvNxt : s.rcvNxt = irs + UInt32.ofNat q.taken

end Inbox

/-- A call within a connection, once that is open. -/
def Within (s : Tcb) (c : Call) : Prop := s.state ≠ .synSent ∧ ∀ ip port, c.op ≠ .connect ip port

theorem takePayload_taken (room : s.rxLen ≤ rxCap) (g : Segment) : (s.takePayload g).2.pending =
        s.pending ++ (if g.seq = s.rcvNxt then g.payload else []).take (rxCap - s.rxLen) ∧
      (s.takePayload g).2.rxLen ≤ rxCap ∧ (s.takePayload g).2.rcvNxt =
        s.rcvNxt + UInt32.ofNat (if g.seq = s.rcvNxt then g.payload else []).length := by
  unfold takePayload
  by_cases empty : g.payload = []
  · simp [empty, room]
  by_cases inOrder : g.seq = s.rcvNxt
  · obtain ⟨count, stored⟩ := s.appendRx_pending g.payload
    have fits := appendRx_room room g.payload
    have nxt : (s.appendRx g.payload).2.rcvNxt = s.rcvNxt := by
      unfold appendRx
      dsimp only
      split <;> rfl
    simp only [List.isEmpty_iff, empty, if_false, inOrder, if_true]
    split
    next more =>
      refine ⟨stored, fits, ?_⟩
      rw [nxt, UInt32.add_assoc, ← UInt32.ofNat_add, Nat.add_sub_cancel' (Nat.le_of_lt more)]
    next whole =>
      refine ⟨stored, fits, ?_⟩
      rw [nxt, show (s.appendRx g.payload).1 = g.payload.length by omega]
  · simp [inOrder, room]

namespace Inbox.Of

variable {irs : UInt32} {q : Inbox} {s : Tcb}

theorem of_rx {t : Tcb} (h : q.Of irs s) (same : t.rx = s.rx) : q.Of irs t := by
  have pending := pending_of_rx same
  refine ⟨pending.trans h.queue, ?_, (congrArg RxView.rcvNxt same).trans h.rcvNxt⟩
  rw [← pending_length, pending, pending_length]
  exact h.room

theorem onData (h : q.Of irs s) (env : Env) (g : Segment) :
    (q.take (if g.seq = s.rcvNxt then g.payload else []) g.fin).Of irs (s.onData env g) := by
  obtain ⟨pending, room, nxt⟩ := takePayload_taken h.room g
  rw [← pending_length, h.queue] at pending
  have taken : (q.take (if g.seq = s.rcvNxt then g.payload else []) false).Of irs (s.takePayload g).2 := by
    refine ⟨pending, room, ?_⟩
    rw [nxt, h.rcvNxt, UInt32.add_assoc, ← UInt32.ofNat_add]
    rfl
  have rx := onData_rx env g s
  cases fin : g.fin with
  | false =>
    rw [fin] at rx
    exact taken.of_rx rx
  | true =>
    rw [fin] at rx
    let counted : Tcb := { (s.takePayload g).2 with rcvNxt := (s.takePayload g).2.rcvNxt + 1 }
    have ended : (q.take (if g.seq = s.rcvNxt then g.payload else []) true).Of irs counted := by
      refine ⟨taken.queue, taken.room, ?_⟩
      change (s.takePayload g).2.rcvNxt + UInt32.ofNat 1 = _
      rw [taken.rcvNxt, UInt32.add_assoc, ← UInt32.ofNat_add]
      rfl
    exact ended.of_rx rx

theorem onSegment (h : q.Of irs s) (env : Env) (g : Segment) (opened : s.state ≠ .synSent) :
    (if s.state.synchronised && !g.rst then q.take (if g.seq = s.rcvNxt then g.payload else []) g.fin
      else q).Of irs (s.onSegment env g) := by
  have acked : q.Of irs (s.onAck g) := h.of_rx (onAck_rx g s)
  have nxt : (s.onAck g).rcvNxt = s.rcvNxt := congrArg RxView.rcvNxt (onAck_rx g s)
  cases rst : g.rst with
  | true =>
    rw [onSegment_reset env g s rst]
    have failed : q.Of irs { s with state := .failed } := h.of_rx rfl
    simpa using failed
  | false =>
    cases sync : s.state.synchronised with
    | true =>
      rw [onSegment_synchronised env g s rst sync]
      simpa [nxt] using acked.onData env g
    | false =>
      rw [onSegment_idle env g s rst opened sync]
      simpa using acked

theorem rxRelease (h : q.Of irs s) (env : Env) (n : Nat) : (q.release n).Of irs (s.rxRelease env n) := by
  have nxt : (s.rxRelease env n).rcvNxt = s.rcvNxt := by
    unfold Tcb.rxRelease
    dsimp only
    split
    · rfl
    split
    · exact congrArg RxView.rcvNxt (sendAck_rx env _)
    · rfl
  refine ⟨?_, rxRelease_room h.room env n, nxt.trans h.rcvNxt⟩
  rw [rxRelease_pending, h.queue]
  rfl

theorem step (h : q.Of irs s) {c : Call} (within : Within s c) : (q.step s c).Of irs (s.step c) := by
  unfold Inbox.step Tcb.step
  cases op : c.op with
  | connect ip port => exact absurd op (within.2 ip port)
  | send data => exact h.of_rx (send_rx c.env data s)
  | close => exact h.of_rx (close_rx c.env s)
  | tick => exact h.of_rx (tick_rx c.env s)
  | release n => exact h.rxRelease c.env n
  | segment src body =>
    simp only [handle]
    cases s.parse src body with
    | none => exact h
    | some g => exact h.onSegment c.env g within.1

/-- The right edge that the segments of the connection carry. -/
theorem right_edge (h : q.Of irs s) : s.rcvNxt + s.window.toUInt32 = irs + UInt32.ofNat q.edge := by
  have window : s.window.toUInt32 = UInt32.ofNat (windowOf q.queue) := by
    rw [← h.queue, ← s.window_pending]
    simp
  rw [h.rcvNxt, window, UInt32.add_assoc, ← UInt32.ofNat_add]
  rfl

end Inbox.Of

/-- A connection beside its receiver. -/
def observe (o : Tcb × Inbox) (c : Call) : Tcb × Inbox := (o.1.step c, o.2.step o.1 c)

theorem observe_of {irs : UInt32} (calls : List Call) {o : Tcb × Inbox} (h : o.2.Of irs o.1)
    (within : Along observe (fun o => Within o.1) o calls) :
    (run observe o calls).2.Of irs (run observe o calls).1 ∧ o.2.edge ≤ (run observe o calls).2.edge :=
  within.invariant (fun p => p.2.Of irs p.1 ∧ o.2.edge ≤ p.2.edge)
    (fun p c held within => ⟨held.1.step within, Nat.le_trans held.2 (p.2.edge_step p.1 c)⟩) ⟨h, le_rfl⟩

/-- The ring answers every run of calls as a queue of at most `rxCap` octets does; the window is the
room in it, up to what the field can say; and from any point of a connection to any later one the right
edge of the window does not move back. -/
theorem ring_is_queue {s : Tcb} (room : s.rxLen ≤ rxCap) :
    (∀ cs : List RingCall, (answers ringCall s cs).1 = (answers queueCall s.pending cs).1 ∧
      (answers ringCall s cs).2.pending = (answers queueCall s.pending cs).2 ∧
      (answers ringCall s cs).2.window.toNat = windowOf (answers queueCall s.pending cs).2) ∧
    ∀ calls later : List Call, Along observe (fun o => Within o.1) (s, ⟨s.pending, 0⟩) (calls ++ later) →
      let o := run observe (s, ⟨s.pending, 0⟩) calls
      let p := run observe (s, ⟨s.pending, 0⟩) (calls ++ later)
      o.1.window.toNat = windowOf o.1.pending ∧ o.1.rcvNxt + o.1.window.toUInt32 = s.rcvNxt + UInt32.ofNat o.2.edge ∧
      p.1.rcvNxt + p.1.window.toUInt32 = s.rcvNxt + UInt32.ofNat p.2.edge ∧ o.2.edge ≤ p.2.edge := by
  constructor
  · intro cs
    obtain ⟨same, queue⟩ := answers_queue cs room
    exact ⟨same, queue, by rw [window_pending, queue]⟩
  · intro calls later within
    rw [along_append] at within
    have start : Inbox.Of s.rcvNxt ⟨s.pending, 0⟩ s := ⟨rfl, room, by simp⟩
    obtain ⟨here, _⟩ := observe_of calls start within.1
    obtain ⟨there, forward⟩ := observe_of later here within.2
    rw [run_append]
    exact ⟨window_pending _, here.right_edge, there.right_edge, forward⟩

theorem boot_ring_answers :
    (answers ringCall {} [.append [1, 2], .release quietEnv 1, .readAt 0 5]).1 = [(2, []), (0, []), (1, [2])] :=
  ((ring_is_queue (s := {}) (by decide)).1 _).1.trans rfl

/-- An empty ring has more room than the window says. -/
theorem window_less_than_room : ¬ ∀ s : Tcb, s.rxLen ≤ rxCap → s.window.toNat = rxCap - s.rxLen := by
  intro all
  exact absurd (all {} (by decide)) (by decide)

end BarryOS.Net.Tcp
