import BarryOS.Lib.Memory
import BarryOS.Net.Ipv4

/-!
# The TCP client (net/tcp.rs)

One connection at a time. The statics of the module are the fields of `Tcb`;
the transmit queue keeps its free-running `TX_HEAD`/`TX_TAIL` counters and its
four slot arrays, and the receive buffer its ring and its two counters.

What the layers below answer is an `Env`: the timer, the cycle counter, the port
`udp::alloc_port` hands out and, for the n-th segment handed to `ipv4::send`,
whether it went out. `wire` records the segments handed down with that answer, `syns` where the
SYNs among them went and `stream` the payloads queued on this connection with what `send` answered;
no function reads them back except to number the next answer. The serial log and the statistics
counters are left out.
-/

namespace BarryOS.Net.Tcp

open Lib

/-- Outgoing segment payload cap. -/
def maxSeg : Nat := 1460

/-- Receive buffer. -/
def rxCap : Nat := 256 * 1024

def retryTicks : Nat := 100
def maxRetries : UInt32 := 5
def txSlots : Nat := 8

inductive State where
  | closed | synSent | established | finWait | finSent | failed
  deriving DecidableEq, Repr

/-- The answers of the layers below during one call. -/
structure Env where
  now : UInt64
  tsc : UInt32
  port : UInt16
  ourIp : Ip
  sends : Nat → Bool

/-- The control block. -/
structure Tcb where
  active : Bool := false
  state : State := .closed
  remoteIp : UInt32 := 0
  remotePort : UInt32 := 0
  localPort : UInt32 := 0
  sndUna : UInt32 := 0
  sndNxt : UInt32 := 0
  rcvNxt : UInt32 := 0
  lastSend : UInt64 := 0
  retries : UInt32 := 0
  iss : UInt32 := 0
  txBuf : Nat → UInt8 := fun _ => 0
  txSlotSeq : Nat → UInt32 := fun _ => 0
  txSlotLen : Nat → Nat := fun _ => 0
  txSlotFin : Nat → Bool := fun _ => false
  txHead : UInt32 := 0
  txTail : UInt32 := 0
  rxBuf : Nat → UInt8 := fun _ => 0
  rxHead : UInt32 := 0
  rxTail : UInt32 := 0
  rxTruncated : Bool := false
  peerClosed : Bool := false
  wire : List (Bytes × Bool) := []
  syns : List UInt32 := []
  stream : List (Bytes × Bool) := []

namespace Tcb

def rxLen (s : Tcb) : Nat := (s.rxTail - s.rxHead).toNat

/-- The room actually left in the ring, as the 16-bit field. -/
def window (s : Tcb) : UInt16 := UInt16.ofNat (min (rxCap - s.rxLen) 0xFFFF)

/-- `rx_read_at` into a buffer of `len` octets. -/
def rxReadAt (s : Tcb) (offset len : Nat) : Bytes :=
  if offset ≥ s.rxLen then []
  else ringRead rxCap s.rxBuf (s.rxHead.toNat % rxCap + offset) (min (s.rxLen - offset) len)

/-- Forget the connection. The sequence numbers and the buffers stay as they are. -/
def reset (s : Tcb) : Tcb :=
  { s with
    active := false
    state := .closed
    rxHead := 0
    rxTail := 0
    rxTruncated := false
    peerClosed := false
    txHead := 0
    txTail := 0
    retries := 0 }

end Tcb

/-! ## Sending -/

/-- TCP checksum: pseudo-header, then the segment. -/
def checksum (src dst : Ip) (seg : Bytes) : UInt16 :=
  let sum := sumWords src.octets + sumWords dst.octets + 6 + seg.length + sumWords seg
  ~~~ (UInt16.ofNat (foldCarry sum sum))

namespace Tcb

/-- The octets `emit` builds for one segment. -/
def segmentBytes (s : Tcb) (ourIp : Ip) (seq : UInt32) (flags : UInt8) (payload : Bytes) : Bytes :=
  let head := be16 s.localPort.toUInt16 ++ be16 s.remotePort.toUInt16 ++ be32 seq ++
    be32 s.rcvNxt ++ [0x50, flags] ++ be16 s.window
  let ck := checksum ourIp (Ip.ofU32 s.remoteIp) (head ++ [0, 0, 0, 0] ++ payload)
  head ++ be16 (if ck = 0 then 0xFFFF else ck) ++ [0, 0] ++ payload

/-- Build and emit one segment with an explicit sequence number. -/
def emit (env : Env) (seq : UInt32) (flags : UInt8) (payload : Bytes) (s : Tcb) : Bool × Tcb :=
  let sent := env.sends s.wire.length
  (sent, { s with
    lastSend := env.now
    wire := s.wire ++ [(s.segmentBytes env.ourIp seq flags payload, sent)]
    syns := if flags = 0x02 then s.syns ++ [s.remoteIp] else s.syns })

/-- `payload_of`: a view of a slot's payload. -/
def payloadOf (s : Tcb) (slot len : Nat) : Bytes :=
  loadBytes s.txBuf (slot * maxSeg) len

/-- Send the segment in one queue slot, as it stands. -/
def emitSlot (env : Env) (slot : UInt32) (s : Tcb) : Bool × Tcb :=
  let i := slot.toNat % txSlots
  emit env (s.txSlotSeq i) (if s.txSlotFin i then 0x11 else 0x10) (s.payloadOf i (s.txSlotLen i)) s

/-- Send a bare ACK for the current receive position. -/
def sendAck (env : Env) (s : Tcb) : Tcb :=
  match s.state with
  | .established | .finWait | .finSent => (emit env s.sndNxt 0x10 [] s).2
  | _ => s

/-- Give back `n` bytes the consumer has finished with. -/
def rxRelease (env : Env) (n : Nat) (s : Tcb) : Tcb :=
  let total := s.rxLen
  let n := min n total
  if n = 0 then s
  else
    let released := { s with rxHead := s.rxHead + UInt32.ofNat n }
    if total ≥ rxCap then sendAck env released else released

/-- Start a connection. -/
def connect (env : Env) (ip : Ip) (port : UInt16) (s : Tcb) : Bool × Tcb :=
  let tsc := (env.tsc <<< 13) ||| (env.tsc >>> 19)
  let iss := tsc ^^^ (env.now.toUInt32 * 0x9E3779B9)
  let s := { s.reset with
    remoteIp := ip.toU32
    remotePort := port.toUInt32
    localPort := env.port.toUInt32
    iss := iss
    sndUna := iss
    sndNxt := iss + 1
    rcvNxt := 0
    state := .synSent
    active := true
    stream := [] }
  emit env s.iss 0x02 [] s

/-- Put an entry in the transmit queue and return its slot index. -/
def queueSlot (seq : UInt32) (len : Nat) (fin : Bool) (s : Tcb) : Nat × Tcb :=
  let slot := s.txTail.toNat % txSlots
  (slot, { s with
    txSlotSeq := Function.update s.txSlotSeq slot seq
    txSlotLen := Function.update s.txSlotLen slot len
    txSlotFin := Function.update s.txSlotFin slot fin
    txTail := s.txTail + 1 })

/-- Queue and send `data` on the established connection. -/
def send (env : Env) (data : Bytes) (s : Tcb) : Bool × Tcb :=
  if s.state ≠ .established then (false, s)
  else if data.isEmpty || data.length > maxSeg then (false, s)
  else if s.txTail - s.txHead ≥ 8 then (false, s)
  else
    let (slot, q) := queueSlot s.sndNxt data.length false
      { s with sndNxt := s.sndNxt + UInt32.ofNat data.length }
    let q := { q with
      txBuf := storeBytes q.txBuf (slot * maxSeg) data
      retries := 0
      stream := q.stream ++ [(data, env.sends q.wire.length)] }
    emitSlot env (UInt32.ofNat slot) q

/-- Say goodbye. Unlike `send`, nothing here asks whether the queue has room. -/
def close (env : Env) (s : Tcb) : Tcb :=
  if s.state ≠ .established then s
  else
    let (slot, q) := queueSlot s.sndNxt 0 true { s with sndNxt := s.sndNxt + 1 }
    (emitSlot env (UInt32.ofNat slot) { q with state := .finWait, retries := 0 }).2

/-! ## Receiving -/

/-- The sequence space a slot takes; a FIN is one past its (empty) payload. -/
def slotSpan (s : Tcb) (i : Nat) : UInt32 :=
  UInt32.ofNat (s.txSlotLen i) + if s.txSlotFin i then 1 else 0

/-- The loop of `ack_advance`: the new `TX_HEAD`. `n` is how far `TX_TAIL` is. -/
def retire (s : Tcb) (ack : UInt32) : Nat → UInt32 → UInt32
  | 0, head => head
  | n + 1, head =>
    let i := head.toNat % txSlots
    if ack - s.txSlotSeq i ≥ s.slotSpan i then retire s ack n (head + 1) else head

/-- Retire every queued segment the peer has acknowledged, oldest first. -/
def ackAdvance (ack : UInt32) (s : Tcb) : Tcb :=
  let head := s.retire ack (s.txTail - s.txHead).toNat s.txHead
  { s with
    txHead := head
    sndUna := if head = s.txTail then s.sndNxt else s.txSlotSeq (head.toNat % txSlots) }

/-- Has everything we sent, the FIN included, been acknowledged? -/
def finAcked (s : Tcb) : Bool := s.txHead = s.txTail

def appendRx (data : Bytes) (s : Tcb) : Nat × Tcb :=
  let used := s.rxLen
  if used ≥ rxCap then (0, s)
  else
    let n := min data.length (rxCap - used)
    (n, { s with
      rxBuf := ringWrite rxCap s.rxBuf (s.rxTail.toNat % rxCap) (data.take n)
      rxTail := s.rxTail + UInt32.ofNat n })

end Tcb

/-- The fields of a segment that `handle` reads. -/
structure Segment where
  seq : UInt32
  ack : UInt32
  flags : UInt8
  payload : Bytes
  deriving DecidableEq, Repr

namespace Segment

def syn (g : Segment) : Bool := g.flags &&& 0x02 ≠ 0
def fin (g : Segment) : Bool := g.flags &&& 0x01 ≠ 0
def rst (g : Segment) : Bool := g.flags &&& 0x04 ≠ 0
def hasAck (g : Segment) : Bool := g.flags &&& 0x10 ≠ 0

end Segment

namespace Tcb

/-- The checks at the top of `handle`: is this a segment of our connection? -/
def parse (s : Tcb) (src : Ip) (body : Bytes) : Option Segment :=
  if !s.active || body.length < 20 then none
  else if src.toU32 ≠ s.remoteIp then none
  else if (be16At body 2).toUInt32 ≠ s.localPort then none
  else if (be16At body 0).toUInt32 ≠ s.remotePort then none
  else
    let dataOff := (octet body 12 >>> 4).toNat * 4
    if dataOff < 20 || body.length < dataOff then none
    else some ⟨be32At body 4, be32At body 8, octet body 13, body.drop dataOff⟩

/-- The payload of a segment in a synchronised state. Returns `consumed`.

What does not fit the ring is dropped, but the sequence number still advances. -/
def takePayload (g : Segment) (s : Tcb) : Nat × Tcb :=
  if g.payload.isEmpty then (0, s)
  else if g.seq = s.rcvNxt then
    let (n, q) := s.appendRx g.payload
    let q := { q with rcvNxt := q.rcvNxt + UInt32.ofNat n }
    if n < g.payload.length then
      (g.payload.length, { q with
        rcvNxt := q.rcvNxt + UInt32.ofNat (g.payload.length - n)
        rxTruncated := true })
    else (g.payload.length, q)
  else (0, s)

/-- The `fin` branch: the FIN is taken wherever it stands in the sequence. -/
def takeFin (env : Env) (s : Tcb) : Tcb :=
  let s := sendAck env { s with peerClosed := true, rcvNxt := s.rcvNxt + 1 }
  if s.state = .finWait ∨ s.state = .finSent then { s with state := .closed, active := false }
  else { s with state := .finSent }

/-- Every payload is answered, taken or not. -/
def ackPayload (env : Env) (consumed : Nat) (g : Segment) (s : Tcb) : Tcb :=
  if consumed > 0 || !g.payload.isEmpty then sendAck env s else s

/-- Wait for the server's FIN even after our FIN has been acked. -/
def noteFinAcked (s : Tcb) : Tcb :=
  if s.state = .finWait ∧ s.finAcked then { s with state := .finSent } else s

/-- The arm of `handle` for `Established`, `FinWait` and `FinSent`. -/
def onData (env : Env) (g : Segment) (s : Tcb) : Tcb :=
  let (consumed, s) := s.takePayload g
  if g.fin then s.takeFin env else (s.ackPayload env consumed g).noteFinAcked

/-- Anything the peer has acknowledged is no longer outstanding. -/
def onAck (g : Segment) (s : Tcb) : Tcb :=
  if g.hasAck ∧ g.ack - s.sndUna < 0x80000000 then { s.ackAdvance g.ack with retries := 0 } else s

/-- The arm of `handle` for `SynSent`. Their SYN consumes one sequence number. -/
def onSynSent (env : Env) (g : Segment) (s : Tcb) : Tcb :=
  if g.syn && g.hasAck then
    sendAck env { s with
      rcvNxt := g.seq + 1
      sndUna := g.ack
      sndNxt := g.ack
      state := .established }
  else s

/-- `handle` once the segment is known to be ours. -/
def onSegment (env : Env) (g : Segment) (s : Tcb) : Tcb :=
  if g.rst then { s with state := .failed }
  else
    let s := s.onAck g
    match s.state with
    | .synSent => s.onSynSent env g
    | .established | .finWait | .finSent => s.onData env g
    | _ => s

/-- Handle one TCP segment (the IPv4 payload). -/
def handle (env : Env) (src : Ip) (body : Bytes) (s : Tcb) : Tcb :=
  match s.parse src body with
  | none => s
  | some g => s.onSegment env g

/-! ## Timers -/

/-- The retransmission loop over the `n` slots from `i` on. `false` is the early
return of a round in which not one of them went out. -/
def resend (env : Env) : Nat → UInt32 → Nat → Tcb → Bool × Tcb
  | 0, _, _, s => (true, s)
  | n + 1, i, sent, s =>
    let (ok, s) := emitSlot env i s
    if ok then resend env n (i + 1) (sent + 1) s else (sent ≠ 0, s)

/-- The end of `tick`: count the round, and give up after `MAX_RETRIES`. -/
def countRetry (s : Tcb) : Tcb :=
  let s := { s with retries := s.retries + 1 }
  if s.retries > maxRetries then { s with state := .failed, active := false } else s

/-- Retransmit unacknowledged data, and give up on a connection gone quiet. -/
def tick (env : Env) (s : Tcb) : Tcb :=
  if !s.active then s
  else if env.now.toNat - s.lastSend.toNat < retryTicks then s
  else if s.state = .synSent then
    let (ok, s) := emit env s.iss 0x02 [] s
    if ok then s.countRetry else s
  else if s.txHead = s.txTail then s
  else
    let (ok, s) := resend env (s.txTail - s.txHead).toNat s.txHead 0 s
    if ok then s.countRetry else s

end Tcb

/-- A frame that brings a TCP segment. -/
def Tcb.receive (env : Env) (frame : Bytes) (s : Tcb) : Tcb :=
  match Ipv4.parseFrame env.ourIp frame with
  | some d => if d.proto = Ipv4.protoTcp then s.handle env d.src d.body else s
  | none => s

/-! ## Calls -/

/-- Everything that can happen to the connection from outside. -/
inductive Op where
  | connect (ip : Ip) (port : UInt16)
  | send (data : Bytes)
  | close
  | tick
  | segment (src : Ip) (body : Bytes)
  | release (n : Nat)
  deriving DecidableEq, Repr

/-- One call, with what the layers below answer while it runs. -/
structure Call where
  env : Env
  op : Op

def Tcb.step (s : Tcb) (c : Call) : Tcb :=
  match c.op with
  | .connect ip port => (s.connect c.env ip port).2
  | .send data => (s.send c.env data).2
  | .close => s.close c.env
  | .tick => s.tick c.env
  | .segment src body => s.handle c.env src body
  | .release n => s.rxRelease c.env n

end BarryOS.Net.Tcp
