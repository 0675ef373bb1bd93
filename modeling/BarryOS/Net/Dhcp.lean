import BarryOS.Net.Ipv4

/-!
# The DHCP client (net/dhcp.rs)

DISCOVER, wait for an OFFER, REQUEST, wait for an ACK. The addresses that a lease sets live in
other modules (`arp`, `ipv4` and `dns`) and are fields of `Client` here, with the flag of
`net::tick`, which puts a fixed address on the interface when the client gave up.

`options` is the walk of `handle` over the options of a message. It gives nothing where an index
or a slice would be out of range, or if it did not end. `wire` records the datagrams handed to
`udp::send_from`, whose answer the code ignores; no function reads it. The counters and the log
are left out.
-/

namespace BarryOS.Net.Dhcp

open Lib

def opRequest : UInt8 := 1
def opReply : UInt8 := 2

def msgDiscover : UInt8 := 1
def msgOffer : UInt8 := 2
def msgRequest : UInt8 := 3
def msgAck : UInt8 := 5

def optSubnetMask : UInt8 := 1
def optRouter : UInt8 := 3
def optDns : UInt8 := 6
def optRequestedIp : UInt8 := 50
def optLeaseTime : UInt8 := 51
def optMessageType : UInt8 := 53
def optServerId : UInt8 := 54
def optParamList : UInt8 := 55
def optEnd : UInt8 := 255

def magicCookie : Bytes := [99, 130, 83, 99]

inductive State where
  | idle | discovering | requesting | bound | failed
  deriving DecidableEq, Repr

def maxAttempts : UInt32 := 4

def retryTicks : Nat := 100

/-- `FALLBACK_IP`. -/
def fallbackIp : Ip := ⟨192, 168, 1, 100⟩

structure Client where
  state : State := .idle
  xid : UInt32 := 0
  offeredIp : UInt32 := 0
  serverId : UInt32 := 0
  lastSend : UInt64 := 0
  attempts : UInt32 := 0
  leaseSecs : UInt32 := 0
  ourIp : UInt32 := 0
  mask : UInt32 := 0xFFFFFF00
  gateway : UInt32 := 0
  dnsServer : UInt32 := 0
  fallbackApplied : Bool := false
  wire : List Bytes := []

/-! ## Asking -/

def bufferSize : Nat := 300

/-- The fixed part of a DHCP message. -/
def basePacket (xid : UInt32) (mac : Option Ipv4.Mac) : Bytes :=
  [opRequest, 1, 6, 0] ++ be32 xid ++ be16 0 ++ be16 0x8000 ++ zeros 16 ++ (match mac with
      | some m => m.octets
      | none => zeros 6) ++ zeros 202 ++ magicCookie

/-- An option that does not fit is left out. -/
def pushOption (done : Bytes) (code : UInt8) (data : Bytes) : Bytes :=
  if done.length + 2 + data.length ≥ bufferSize then done
  else done ++ code :: UInt8.ofNat data.length :: data

/-- The buffer behind the options. -/
def finish (done : Bytes) : Bytes := done ++ optEnd :: zeros (bufferSize - 1 - done.length)

def paramList : Bytes := [optSubnetMask, optRouter, optDns, optLeaseTime]

def discover (xid : UInt32) (mac : Option Ipv4.Mac) : Bytes :=
  let buf := pushOption (basePacket xid mac) optMessageType [msgDiscover]
  finish (pushOption buf optParamList paramList)

def request (xid : UInt32) (mac : Option Ipv4.Mac) (ip server : UInt32) : Bytes :=
  let buf := pushOption (basePacket xid mac) optMessageType [msgRequest]
  let buf := pushOption buf optRequestedIp (be32 ip)
  let buf := pushOption buf optServerId (be32 server)
  finish (pushOption buf optParamList paramList)

namespace Client

def sendDiscover (now : UInt64) (mac : Option Ipv4.Mac) (c : Client) : Client :=
  { c with lastSend := now, wire := c.wire ++ [discover c.xid mac] }

def sendRequest (now : UInt64) (mac : Option Ipv4.Mac) (c : Client) : Client :=
  { c with lastSend := now, wire := c.wire ++ [request c.xid mac c.offeredIp c.serverId] }

/-- Start the exchange. -/
def start (now : UInt64) (mac : Option Ipv4.Mac) (c : Client) : Client :=
  if c.state = .bound then c else sendDiscover now mac { c with attempts := 0, state := .discovering }

/-- `net::init`: no address, a number for the exchange, and the first DISCOVER. -/
def boot (now : UInt64) (mac : Option Ipv4.Mac) : Client :=
  start now mac { ourIp := 0, xid := now.toUInt32 ^^^ 0x0B050B05 }

/-- Drive retransmission. -/
def tick (now : UInt64) (mac : Option Ipv4.Mac) (c : Client) : Client :=
  if c.state = .bound || c.state = .failed || c.state = .idle then c
  else if now.toNat - c.lastSend.toNat < retryTicks then c
  else
    let s := c.state
    let c := { c with attempts := c.attempts + 1 }
    if c.attempts ≥ maxAttempts then { c with state := .failed }
    else if s = .discovering then sendDiscover now mac c else sendRequest now mac c

/-- What `net::tick` does with the client: if DHCP never answered, put something on the interface. -/
def netTick (now : UInt64) (mac : Option Ipv4.Mac) (c : Client) : Client :=
  let c := c.tick now mac
  if !c.fallbackApplied && c.state = .failed then { c with fallbackApplied := true, ourIp := fallbackIp.toU32 } else c

end Client

/-! ## Answers -/

/-- What `handle` keeps of the options. -/
structure Options where
  msgType : UInt8 := 0
  mask : Option Ip := none
  router : Option Ip := none
  dnsServer : Option Ip := none
  serverId : Option Ip := none
  lease : Option UInt32 := none
  deriving DecidableEq

/-- `d.try_into().ok()`. -/
def four : Bytes → Option Ip
  | [a, b, c, d] => some ⟨a, b, c, d⟩
  | _ => none

def Options.take (o : Options) (code : UInt8) (data : Bytes) : Options :=
  if code = optMessageType ∧ data.length = 1 then { o with msgType := octet data 0 }
  else if code = optSubnetMask then { o with mask := four data }
  else if code = optRouter then { o with router := four data }
  else if code = optDns then { o with dnsServer := four data }
  else if code = optServerId then { o with serverId := four data }
  else if code = optLeaseTime ∧ data.length = 4 then { o with lease := some (be32At data 0) }
  else o

/-- The loop over the options, from octet `i` on. -/
def walk (payload : Bytes) : (fuel i : Nat) → Options → Option Options
  | 0, _, _ => none
  | fuel + 1, i, o =>
    if i < payload.length then
      payload[i]?.bind fun code =>
        if code = optEnd then some o
        else if code = 0 then walk payload fuel (i + 1) o
        else if i + 1 ≥ payload.length then some o
        else
          payload[i + 1]?.bind fun len =>
            if i + 2 + len.toNat > payload.length then some o
            else
              (slice? payload (i + 2) (i + 2 + len.toNat)).bind fun data =>
                walk payload fuel (i + 2 + len.toNat) (o.take code data)
    else some o

/-- Every round goes forward. -/
def options (payload : Bytes) : Option Options := walk payload (payload.length + 1) 240 {}

/-- The checks before the options: a reply to us. -/
def Client.hears (c : Client) (payload : Bytes) : Bool :=
  !(payload.length < 240 || octet payload 0 ≠ opReply) && be32At payload 4 = c.xid &&
    slice payload 236 240 = magicCookie

/-- `yiaddr`. -/
def yourIp (payload : Bytes) : UInt32 := be32At payload 16

namespace Client

def offer (now : UInt64) (mac : Option Ipv4.Mac) (ip : UInt32) (o : Options) (c : Client) : Client :=
  sendRequest now mac { c with
    offeredIp := ip
    serverId := (o.serverId.map Ip.toU32).getD c.serverId
    state := .requesting
    attempts := 0 }

def ack (ip : UInt32) (o : Options) (c : Client) : Client :=
  { c with
    ourIp := (Ip.ofU32 ip).toU32
    mask := (o.mask.map Ip.toU32).getD c.mask
    gateway := (o.router.map Ip.toU32).getD c.gateway
    dnsServer := (o.dnsServer.map Ip.toU32).getD c.dnsServer
    leaseSecs := o.lease.getD c.leaseSecs
    state := .bound }

/-- A DHCP message arrived on port 68. -/
def handle (now : UInt64) (mac : Option Ipv4.Mac) (payload : Bytes) (c : Client) : Option Client :=
  if c.hears payload then
    (options payload).map fun o =>
      if o.msgType = msgOffer then c.offer now mac (yourIp payload) o
      else if o.msgType = msgAck then c.ack (yourIp payload) o
      else c
  else some c

end Client

/-! ## The walk ends -/

/-- Whatever the octets are, the walk ends within so many rounds as there are octets left, in range. -/
theorem walk_total (payload : Bytes) (fuel i : Nat) (o : Options) (enough : payload.length < fuel + i)
    (some' : 0 < fuel) :
    ∃ last, walk payload fuel i o = some last := by
  induction fuel generalizing i o with
  | zero => omega
  | succ fuel ih =>
    unfold walk
    by_cases inside : i < payload.length
    · rw [if_pos inside, List.getElem?_eq_getElem inside, Option.bind_some]
      split
      · exact ⟨o, rfl⟩
      split
      · exact ih (i + 1) o (by omega) (by omega)
      split
      · exact ⟨o, rfl⟩
      rw [List.getElem?_eq_getElem (by omega), Option.bind_some]
      split
      · exact ⟨o, rfl⟩
      rw [slice?, if_pos ⟨by omega, by omega⟩]
      exact ih _ _ (by omega) (by omega)
    · rw [if_neg inside]
      exact ⟨o, rfl⟩

theorem options_total (payload : Bytes) : ∃ o, options payload = some o :=
  walk_total payload _ 240 {} (by omega) (by omega)

end BarryOS.Net.Dhcp
