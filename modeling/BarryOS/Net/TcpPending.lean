import BarryOS.Net.TcpReceive
import BarryOS.Net.TcpTransmit

/-!
# What has arrived and has not been taken

`pending` is the contents of the receive ring in order. The consumer reads it at offsets and
releases it from the front; the next segment of the peer adds to its end. `Talking` is an
open connection as both ends see it, with the number of segments that await an answer.
-/

namespace BarryOS.Net.Tcp

open Lib List

variable {ip : Ip} {n : Nat} {s : Tcb}

namespace Tcb

def pending (s : Tcb) : Bytes := ringRead rxCap s.rxBuf s.rxHead.toNat s.rxLen

@[simp] theorem pending_length (s : Tcb) : s.pending.length = s.rxLen := by
  simp [pending]

theorem pending_of_rx {s t : Tcb} (same : s.rx = t.rx) : s.pending = t.pending := by
  have head : s.rxHead = t.rxHead := congrArg RxView.rxHead same
  have tail : s.rxTail = t.rxTail := congrArg RxView.rxTail same
  have buf : s.rxBuf = t.rxBuf := congrArg RxView.rxBuf same
  simp only [pending, rxLen, head, tail, buf]

/-- The pending octets split where the consumer has got to. -/
theorem pending_split (inside : n ≤ s.rxLen) : s.pending =
    ringRead rxCap s.rxBuf s.rxHead.toNat n ++ ringRead rxCap s.rxBuf (s.rxHead.toNat + n) (s.rxLen - n) := by
  rw [pending, ← ringRead_add, Nat.add_sub_cancel' inside]

theorem rxReadAt_pending (s : Tcb) (offset len : Nat) : s.rxReadAt offset len = (s.pending.drop offset).take len := by
  unfold rxReadAt
  split
  next beyond => rw [drop_of_length_le (by simpa using beyond), take_nil]
  next inside =>
    rw [pending_split (Nat.le_of_not_le inside), drop_left' (by simp), ringRead_take]
    rw [← ringRead_mod, Nat.mod_add_mod, ringRead_mod]

theorem pending_store {s t : Tcb} {bs : Bytes} (stored : t.rx = s.rx.store bs)
    (fits : s.rxLen + bs.length ≤ rxCap) : t.pending = s.pending ++ bs := by
  have head : t.rxHead = s.rxHead := congrArg RxView.rxHead stored
  have tail : t.rxTail = s.rxTail + UInt32.ofNat bs.length := congrArg RxView.rxTail stored
  have buf : t.rxBuf = ringWrite rxCap s.rxBuf s.rxTail.toNat bs := congrArg RxView.rxBuf stored
  have cap : rxCap = 262144 := rfl
  have len : t.rxLen = s.rxLen + bs.length := by
    simp only [rxLen, head, tail, UInt32.toNat_sub, UInt32.toNat_add, UInt32.toNat_ofNat'] at fits ⊢
    omega
  -- the tail may have wrapped, but the ring divides the counter's range
  have place : s.rxTail.toNat % rxCap = (s.rxHead.toNat + s.rxLen) % rxCap := by
    have bound := s.rxHead.toNat_lt
    simp only [rxLen, cap, UInt32.toNat_sub]
    omega
  have written : ringWrite rxCap s.rxBuf s.rxTail.toNat bs = ringWrite rxCap s.rxBuf (s.rxHead.toNat + s.rxLen) bs := by
    rw [← ringWrite_mod, place, ringWrite_mod]
  rw [pending, len, ringRead_add, head, buf, written, ringRead_write_frame _ _ _ _ _ fits,
    ringRead_write _ _ _ _ (by omega)]
  rfl

theorem pending_advance {s t : Tcb} (head : t.rxHead = s.rxHead + UInt32.ofNat n)
    (tail : t.rxTail = s.rxTail) (buf : t.rxBuf = s.rxBuf) (inside : n ≤ s.rxLen) : t.pending = s.pending.drop n := by
  have bound := s.rxHead.toNat_lt
  have len : t.rxLen = s.rxLen - n := by
    simp only [rxLen, head, tail, UInt32.toNat_sub, UInt32.toNat_add, UInt32.toNat_ofNat'] at inside ⊢
    omega
  have place : t.rxHead.toNat % rxCap = (s.rxHead.toNat + n) % rxCap := by
    have cap : rxCap = 262144 := rfl
    simp only [head, cap, UInt32.toNat_add, UInt32.toNat_ofNat']
    omega
  rw [pending_split inside, drop_left' (by simp), pending, len, buf, ← ringRead_mod, place, ringRead_mod]

theorem rxRelease_pending (env : Env) (n : Nat) (s : Tcb) : (s.rxRelease env n).pending = s.pending.drop n := by
  have clamp : s.pending.drop (min n s.rxLen) = s.pending.drop n := by
    rcases Nat.le_total n s.rxLen with le | ge
    · rw [Nat.min_eq_left le]
    · rw [Nat.min_eq_right ge, drop_of_length_le (by simp), drop_of_length_le (by simpa using ge)]
  rw [← clamp]
  dsimp only [rxRelease]
  split
  next none => rw [none, drop_zero]
  split
  · rw [pending_of_rx (sendAck_rx env _)]
    exact pending_advance rfl rfl rfl (Nat.min_le_right _ _)
  · exact pending_advance rfl rfl rfl (Nat.min_le_right _ _)

end Tcb

/-! ## A connection that is open -/

/-- Both ends know each other, nothing is closed, and `n` segments of ours wait for an answer. -/
structure Talking (ip : Ip) (n : Nat) (s : Tcb) : Prop where
  active : s.active = true
  state : s.state = .established
  remote : s.remoteIp = ip.toU32
  ports : s.remotePort.toUInt16.toUInt32 = s.remotePort ∧ s.localPort.toUInt16.toUInt32 = s.localPort
  open' : s.peerClosed = false
  queued : (s.txTail - s.txHead).toNat = n

/-- The peer's next segment, with neither acknowledgement nor FIN. -/
def Tcb.nextSegment (s : Tcb) (payload : Bytes) : Bytes :=
  be16 s.remotePort.toUInt16 ++ be16 s.localPort.toUInt16 ++ be32 s.rcvNxt ++ be32 0 ++
    [0x50, 0, 0, 0, 0, 0, 0, 0] ++ payload

theorem Talking.parse_nextSegment (h : Talking ip n s) (payload : Bytes) :
    s.parse ip (s.nextSegment payload) = some ⟨s.rcvNxt, 0, 0, payload⟩ := by
  have remotePort : be16At (s.nextSegment payload) 0 = s.remotePort.toUInt16 := by
    simp only [Tcb.nextSegment, append_assoc, be16At_be16]
  have localPort : be16At (s.nextSegment payload) 2 = s.localPort.toUInt16 :=
    be16At_be16 s.localPort.toUInt16 (be32 s.rcvNxt ++ be32 0 ++ [0x50, 0, 0, 0, 0, 0, 0, 0] ++ payload)
  have seq : be32At (s.nextSegment payload) 4 = s.rcvNxt :=
    be32At_be32 s.rcvNxt (be32 0 ++ [0x50, 0, 0, 0, 0, 0, 0, 0] ++ payload)
  have ack : be32At (s.nextSegment payload) 8 = 0 := be32At_be32 0 ([0x50, 0, 0, 0, 0, 0, 0, 0] ++ payload)
  have long : (s.nextSegment payload).length = payload.length + 20 := by
    simp [Tcb.nextSegment, be16, be32]
  have first : octet (s.nextSegment payload) 12 = 0x50 := rfl
  have offset : (octet (s.nextSegment payload) 12 >>> 4).toNat * 4 = 20 := by
    rw [first]
    decide
  unfold Tcb.parse
  rw [h.active, h.remote, remotePort, localPort, seq, h.ports.1, h.ports.2]
  rw [if_neg (by simp [long]), if_neg (by simp), if_neg (by simp), offset]
  rw [if_neg (by simp), ack]
  rfl

/-- What `Talking` is about. -/
def Tcb.line (s : Tcb) : (Bool × State × UInt32) × (UInt32 × UInt32) × Bool × Nat :=
  ((s.active, s.state, s.remoteIp), (s.remotePort, s.localPort), s.peerClosed, (s.txTail - s.txHead).toNat)

theorem offWire_line : Tcb.OffWire Tcb.line := fun _ _ _ _ => rfl

theorem Talking.of_line {t : Tcb} (h : Talking ip n s) (same : t.line = s.line) : Talking ip n t := by
  simp only [Tcb.line, Prod.mk.injEq] at same
  obtain ⟨⟨active, state, remote⟩, ⟨remotePort, localPort⟩, closed, queued⟩ := same
  refine ⟨active.trans h.active, state.trans h.state, remote.trans h.remote, ?_, closed.trans h.open',
    queued.trans h.queued⟩
  rw [remotePort, localPort]
  exact h.ports

theorem onData_open (env : Env) (g : Segment) (s : Tcb) (noFin : g.fin = false) :
    s.onData env g = ((s.takePayload g).2.ackPayload env (s.takePayload g).1 g).noteFinAcked := by
  unfold Tcb.onData
  rw [noFin]
  rfl

section

variable (h : Talking ip n s) (env : Env)

include h

/-- The peer's next segment is taken whole and answered. -/
theorem Talking.handle_nextSegment {payload : Bytes} (fits : s.rxLen + payload.length ≤ rxCap) :
    Talking ip n (s.handle env ip (s.nextSegment payload)) ∧
      (s.handle env ip (s.nextSegment payload)).pending = s.pending ++ payload := by
  have noReset : (⟨s.rcvNxt, 0, 0, payload⟩ : Segment).rst = false := by simp [Segment.rst]
  have noFin : (⟨s.rcvNxt, 0, 0, payload⟩ : Segment).fin = false := by simp [Segment.fin]
  have sync : s.state.synchronised = true := by rw [h.state]; rfl
  have handled : s.handle env ip (s.nextSegment payload) = s.onSegment env ⟨s.rcvNxt, 0, 0, payload⟩ := by
    unfold Tcb.handle
    rw [h.parse_nextSegment]
  rw [handled]
  constructor
  · have unacked : s.onAck ⟨s.rcvNxt, 0, 0, payload⟩ = s := by
      unfold Tcb.onAck
      rw [if_neg (by simp [Segment.hasAck])]
    have taken := Tcb.OffRing.takePayload (f := Tcb.line) (fun _ _ _ _ _ => rfl) ⟨s.rcvNxt, 0, 0, payload⟩ s
    have answered := h.of_line ((offWire_line.ackPayload env (s.takePayload ⟨s.rcvNxt, 0, 0, payload⟩).1
      ⟨s.rcvNxt, 0, 0, payload⟩ _).trans taken)
    rw [Tcb.onSegment_synchronised env _ s noReset sync, unacked, onData_open env _ s noFin]
    unfold Tcb.noteFinAcked
    rwa [if_neg (fun closing => by rw [answered.state] at closing; cases closing.1)]
  · have stored := onSegment_rx env ⟨s.rcvNxt, 0, 0, payload⟩ s sync noReset (fun _ => by dsimp only; omega)
    refine Tcb.pending_store ?_ fits
    simpa [noFin] using stored

/-- Room in the queue: what we send goes out, and waits there. -/
theorem Talking.send (up : ∀ i, env.sends i = true) (data : Bytes) (ne : data ≠ []) (short : data.length ≤ maxSeg)
    (room : n < 8) : (s.send env data).1 = true ∧ Talking ip (n + 1) (s.send env data).2 := by
  have space : s.queued < txSlots := by rw [Tcb.queued, h.queued]; exact room
  unfold Tcb.send
  rw [if_neg (by simp [h.state]), if_neg (by simp [ne, short]), if_neg fun full => s.queued_full_iff.mp full space]
  refine ⟨up _, h.active, h.state, h.remote, h.ports, h.open', ?_⟩
  have queued := h.queued
  have tail : (s.txTail + 1 - s.txHead).toNat = n + 1 := by
    simp only [UInt32.toNat_sub, UInt32.toNat_add, UInt32.toNat_one] at queued ⊢
    omega
  exact tail

theorem Talking.send_any (up : ∀ i, env.sends i = true) (data : Bytes) : ∃ m, Talking ip m (s.send env data).2 := by
  by_cases taken : s.takes data
  · obtain ⟨-, ⟨ne, short⟩, room⟩ := taken
    exact ⟨n + 1, (h.send env up data ne short (h.queued ▸ room)).2⟩
  rw [Tcb.send_refused env data s taken]
  exact ⟨n, h⟩

theorem Talking.rxRelease (k : Nat) : Talking ip n (s.rxRelease env k) :=
  h.of_line (offWire_line.rxRelease (fun _ _ => rfl) env k s)

end

end BarryOS.Net.Tcp
