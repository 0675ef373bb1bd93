import BarryOS.Net.Tcp

/-!
# Packets out (net/ipv4.rs, net/udp.rs, net/icmp.rs)

What `send` and `send_broadcast` put on the wire, and the datagrams that UDP, ICMP and TCP give to them.
`Link` is what they read: the address and the adapter, the mask and the gateway, the ARP cache, and the
identification of the next packet. A frame that is built is a frame handed to the adapter; whether the
adapter takes it, the ARP request for an unknown next hop, and the counters are left out.
-/

namespace BarryOS.Net

open Lib Tcp

namespace Ipv4

def protoIcmp : UInt8 := 1

structure Link where
  ourIp : Ip
  ourMac : Option Mac
  mask : UInt32
  gateway : Ip
  arp : Ip → Option Mac
  id : UInt16

namespace Link

variable (link : Link)

/-- Is `ip` reachable without a router? -/
def onLink (ip : Ip) : Bool := link.ourIp.toU32 &&& link.mask = ip.toU32 &&& link.mask

/-- The address a frame for `ip` actually goes to. -/
def nextHop (ip : Ip) : Ip := if link.onLink ip || link.gateway = ⟨0, 0, 0, 0⟩ then ip else link.gateway

end Link

/-- The header in front of its checksum, and behind it. -/
def headerFront (id : UInt16) (proto : UInt8) (total : Nat) : Bytes :=
  [0x45, 0] ++ be16 (UInt16.ofNat total) ++ be16 id ++ be16 0 ++ [64, proto]

def headerBack (src dst : Ip) : Bytes := src.octets ++ dst.octets

def header (id : UInt16) (src dst : Ip) (proto : UInt8) (total : Nat) : Bytes :=
  let ck := checksum (headerFront id proto total ++ be16 0 ++ headerBack src dst)
  headerFront id proto total ++ be16 ck ++ headerBack src dst

/-- `frame[..n]`. -/
def frameBytes (dstMac srcMac : Mac) (id : UInt16) (src dst : Ip) (proto : UInt8) (payload : Bytes) : Bytes :=
  dstMac.octets ++ srcMac.octets ++ be16 etherType ++ header id src dst proto (20 + payload.length) ++ payload

def macBroadcast : Mac := ⟨[0xFF, 0xFF, 0xFF, 0xFF, 0xFF, 0xFF], rfl⟩

namespace Link

variable (link : Link)

/-- Send one datagram. -/
def send (dst : Ip) (proto : UInt8) (payload : Bytes) : Option Bytes :=
  link.ourMac.bind fun ourMac =>
    if 20 + payload.length > 1500 then none
    else (link.arp (link.nextHop dst)).map fun hopMac => frameBytes hopMac ourMac link.id link.ourIp dst proto payload

/-- Send a datagram as a link-layer broadcast, with an explicit source address. -/
def sendBroadcast (src dst : Ip) (proto : UInt8) (payload : Bytes) : Option Bytes :=
  link.ourMac.bind fun ourMac =>
    if 20 + payload.length > 1500 then none else some (frameBytes macBroadcast ourMac link.id src dst proto payload)

end Link

end Ipv4

namespace Udp

open Ipv4

/-- UDP checksum: the pseudo-header, then the datagram. -/
def checksum (src dst : Ip) (dgram : Bytes) : UInt16 :=
  let sum := sumWords src.octets + sumWords dst.octets + protoUdp.toNat + dgram.length + sumWords dgram
  ~~~ (UInt16.ofNat (foldCarry sum sum))

/-- `dgram[..len]`. -/
def datagram (src dst : Ip) (dstPort srcPort : UInt16) (payload : Bytes) : Bytes :=
  let head := be16 srcPort ++ be16 dstPort ++ be16 (UInt16.ofNat (8 + payload.length))
  let ck := checksum src dst (head ++ be16 0 ++ payload)
  head ++ be16 (if ck = 0 then 0xFFFF else ck) ++ payload

/-- `send_from`: with an explicit source address. -/
def sendFrom (link : Link) (src dst : Ip) (dstPort srcPort : UInt16) (payload : Bytes) : Option Bytes :=
  if 8 + payload.length > 1472 then none
  else if src = ⟨0, 0, 0, 0⟩ || dst = broadcast then
    link.sendBroadcast src dst protoUdp (datagram src dst dstPort srcPort payload)
  else link.send dst protoUdp (datagram src dst dstPort srcPort payload)

def send (link : Link) (dst : Ip) (dstPort srcPort : UInt16) (payload : Bytes) : Option Bytes :=
  sendFrom link link.ourIp dst dstPort srcPort payload

/-- How the messages of dhcp.rs go out: from no address, to everyone. -/
def sendDhcp (link : Link) (buf : Bytes) : Option Bytes := sendFrom link ⟨0, 0, 0, 0⟩ broadcast 67 68 buf

end Udp

namespace Icmp

open Ipv4

def typeEchoReply : UInt8 := 0

def typeEchoRequest : UInt8 := 8

def ourId : UInt16 := 0x0B05

/-- `b'a' + (i % 26)`, 32 times. -/
def pattern : Bytes := (List.range 32).map fun i => 0x61 + UInt8.ofNat (i % 26)

/-- A message whose checksum stands behind its type and code. -/
def message (front back : Bytes) : Bytes := front ++ be16 (Ipv4.checksum (front ++ be16 0 ++ back)) ++ back

/-- The echo request with this number. -/
def echo (seq : UInt16) : Bytes := message [typeEchoRequest, 0] (be16 ourId ++ be16 seq ++ pattern)

/-- Send one echo request. -/
def request (link : Link) (dst : Ip) (seq : UInt16) : Option Bytes := link.send dst protoIcmp (echo seq)

/-- The answer to an echo request: the message as it came, with its type and its checksum changed. -/
def reply (body : Bytes) : Bytes := message [typeEchoReply, octet body 1] ((body.take 1500).drop 4)

/-- `handle`, as far as it sends. -/
def handle (link : Link) (src : Ip) (body : Bytes) : Option Bytes :=
  if body.length < 8 then none
  else if Ipv4.checksum body ≠ 0 then none
  else if octet body 0 = typeEchoRequest then link.send src protoIcmp (reply body)
  else none

end Icmp

/-- The segment that `emit` hands to `ipv4::send`. -/
def Tcp.Tcb.sendSegment (link : Ipv4.Link) (s : Tcb) (seq : UInt32) (flags : UInt8) (payload : Bytes) : Option Bytes :=
  link.send (Ip.ofU32 s.remoteIp) Ipv4.protoTcp (s.segmentBytes link.ourIp seq flags payload)

end BarryOS.Net
