import BarryOS.Lib.Bytes

/-!
# IPv4 in (net/ipv4.rs)

Addresses, the loops of a checksum, and `handle_frame` up to the protocol it hands the body to. The
diagnostic counters are left out.
-/

namespace BarryOS.Net

open Lib

structure Ip where
  a : UInt8
  b : UInt8
  c : UInt8
  d : UInt8
  deriving DecidableEq, Repr

/-- `arp::ip_to_u32`. -/
def Ip.toU32 (ip : Ip) : UInt32 :=
  (ip.a.toUInt32 <<< 24) ||| (ip.b.toUInt32 <<< 16) ||| (ip.c.toUInt32 <<< 8) ||| ip.d.toUInt32

/-- `arp::u32_to_ip`. -/
def Ip.ofU32 (v : UInt32) : Ip :=
  ⟨(v >>> 24).toUInt8, (v >>> 16).toUInt8, (v >>> 8).toUInt8, v.toUInt8⟩

def Ip.octets (ip : Ip) : Bytes := [ip.a, ip.b, ip.c, ip.d]

theorem Ip.toU32_ofU32 (v : UInt32) : (Ip.ofU32 v).toU32 = v := by
  apply UInt32.toNat_inj.mp
  have range := v.toNat_lt
  have octets : ∀ k : UInt32, (v >>> k).toUInt8.toUInt32.toNat = v.toNat >>> (k.toNat % 32) % 256 := by
    intro k
    simp
  simp only [Ip.toU32, Ip.ofU32, UInt32.toNat_or, UInt32.toNat_shiftLeft, octets, UInt8.toNat_toUInt32,
    UInt32.toNat_toUInt8]
  rw [show UInt32.toNat 24 % 32 = 24 from rfl, show UInt32.toNat 16 % 32 = 16 from rfl,
    show UInt32.toNat 8 % 32 = 8 from rfl]
  simp only [Nat.shiftRight_eq_div_pow]
  rw [Nat.mod_eq_of_lt (a := (v.toNat / 2 ^ 24 % 256) <<< 24) (by rw [Nat.shiftLeft_eq]; omega),
    Nat.mod_eq_of_lt (a := (v.toNat / 2 ^ 16 % 256) <<< 16) (by rw [Nat.shiftLeft_eq]; omega),
    Nat.mod_eq_of_lt (a := (v.toNat / 2 ^ 8 % 256) <<< 8) (by rw [Nat.shiftLeft_eq]; omega),
    join32 _ _ _ _ (by omega) (by omega) (by omega)]
  omega

theorem Ip.toU32_toNat (ip : Ip) :
    ip.toU32.toNat = ip.a.toNat * 16777216 + ip.b.toNat * 65536 + ip.c.toNat * 256 + ip.d.toNat :=
  be32At_toNat ip.octets 0

theorem Ip.toU32_injective {ip ip' : Ip} (same : ip.toU32 = ip'.toU32) : ip = ip' := by
  have numbers := congrArg UInt32.toNat same
  rw [Ip.toU32_toNat, Ip.toU32_toNat] at numbers
  obtain ⟨a, b, c, d⟩ := ip
  obtain ⟨a', b', c', d'⟩ := ip'
  have bounds := (⟨a.toNat_lt, b.toNat_lt, c.toNat_lt, d.toNat_lt⟩ : _ ∧ _ ∧ _ ∧ _)
  have bounds' := (⟨a'.toNat_lt, b'.toNat_lt, c'.toNat_lt, d'.toNat_lt⟩ : _ ∧ _ ∧ _ ∧ _)
  dsimp only at numbers
  rw [Ip.mk.injEq, ← UInt8.toNat_inj, ← UInt8.toNat_inj, ← UInt8.toNat_inj, ← UInt8.toNat_inj]
  omega

/-- Sum of the 16-bit words of a packet, an odd last octet padded on the right. -/
def sumWords : Bytes → Nat
  | a :: b :: rest => a.toNat * 256 + b.toNat + sumWords rest
  | [a] => a.toNat * 256
  | [] => 0

/-- `while sum >> 16 != 0`: every round shrinks the sum, so it bounds the rounds. -/
def foldCarry : Nat → Nat → Nat
  | 0, sum => sum
  | fuel + 1, sum =>
    if sum >>> 16 = 0 then sum else foldCarry fuel ((sum &&& 0xFFFF) + (sum >>> 16))

namespace Ipv4

def etherType : UInt16 := 0x0800

def protoTcp : UInt8 := 6

def protoUdp : UInt8 := 17

def broadcast : Ip := ⟨255, 255, 255, 255⟩

/-- A link-layer address. -/
structure Mac where
  octets : Bytes
  six : octets.length = 6
  deriving DecidableEq

/-- Internet checksum (RFC 1071). -/
def checksum (data : Bytes) : UInt16 :=
  let sum := sumWords data
  ~~~ (UInt16.ofNat (foldCarry sum sum))

/-- What a frame carries. -/
structure Datagram where
  src : Ip
  dst : Ip
  proto : UInt8
  body : Bytes
  deriving DecidableEq

def ipAt (b : Bytes) (i : Nat) : Ip := ⟨octet b i, octet b (i + 1), octet b (i + 2), octet b (i + 3)⟩

/-- The checks of `handle_frame`: a whole datagram for us or for everyone. -/
def parseFrame (ourIp : Ip) (frame : Bytes) : Option Datagram :=
  if frame.length < 34 then none
  else if be16At frame 12 ≠ etherType then none
  else
    let pkt := frame.drop 14
    let ihl := (octet pkt 0 &&& 0x0F).toNat * 4
    let total := (be16At pkt 2).toNat
    if octet pkt 0 >>> 4 ≠ 4 || ihl < 20 || pkt.length < ihl then none
    else if total < ihl || pkt.length < total then none
    else if checksum (pkt.take ihl) ≠ 0 then none
    else if be16At pkt 6 &&& 0x3FFF ≠ 0 then none
    else
      let dst := ipAt pkt 16
      if dst.toU32 ≠ ourIp.toU32 && dst ≠ broadcast then none
      else some ⟨ipAt pkt 12, dst, octet pkt 9, (pkt.take total).drop ihl⟩

theorem body_length {ourIp : Ip} {frame : Bytes} {d : Datagram} (h : parseFrame ourIp frame = some d) :
    d.body.length < 2 ^ 16 := by
  unfold parseFrame at h
  split at h
  · cases h
  split at h
  · cases h
  dsimp only at h
  split at h
  · cases h
  split at h
  · cases h
  split at h
  · cases h
  split at h
  · cases h
  split at h
  · cases h
  cases h
  have bound := (be16At (frame.drop 14) 2).toNat_lt
  simp only [List.length_drop, List.length_take]
  omega

end Ipv4

end BarryOS.Net
