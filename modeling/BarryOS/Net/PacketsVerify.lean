import BarryOS.Lib.OnesComplement
import BarryOS.Net.Packets

/-!
# Packets verify and decode at a receiver

Every frame that `ipv4::send` and `send_broadcast` build has a header that verifies, and the host that
owns the destination address hands its payload up as it was sent, whatever padding the frame comes with
(`frameBytes_carries`). The checksums of UDP, TCP and ICMP verify with the addresses they were computed
for, and these are the addresses of the packet (`packets_verify`). `send_from` takes a source of its
own and would hand one that is neither ours nor 0.0.0.0 to `ipv4::send`, which writes our address; no
caller has such a source.
-/

namespace BarryOS.Net

open Lib Tcp List

/-! ## The code's sums -/

variable (data : Bytes)

theorem sumWords_eq : sumWords data = (words data).sum := by
  fun_induction sumWords data with
  | case1 a b rest ih => rw [words, sum_cons, ih]
  | case2 a => simp [words]
  | case3 => rfl

theorem foldCarry_eq {fuel n : Nat} (enough : n ≤ fuel) : foldCarry fuel n = canon n := by
  induction fuel generalizing n with
  | zero =>
    rw [Nat.le_zero.mp enough]
    rfl
  | succ fuel ih =>
    have high : n >>> 16 = n / 65536 := Nat.shiftRight_eq_div_pow n 16
    have low : n &&& 0xFFFF = n % 65536 := Nat.and_two_pow_sub_one_eq_mod n 16
    unfold foldCarry
    rw [high, low]
    split
    · exact (canon_of_lt (by omega)).symm
    · rw [ih (by omega), canon_carry]

theorem complement_toNat (n : Nat) : (~~~ (UInt16.ofNat (foldCarry n n))).toNat = 65535 - canon n := by
  have small := canon_le n
  rw [foldCarry_eq (Nat.le_refl n), UInt16.toNat_not, UInt16.toNat_ofNat', Nat.mod_eq_of_lt (by omega)]
  rfl

theorem checksum_toNat : (Ipv4.checksum data).toNat = 65535 - canon (words data).sum := by
  unfold Ipv4.checksum
  rw [complement_toNat, sumWords_eq]

/-- The test of a receiver is the rule. -/
theorem checksum_eq_zero : Ipv4.checksum data = 0 ↔ Verifies data := by
  have small := canon_le (words data).sum
  rw [← UInt16.toNat_inj, checksum_toNat, Verifies, onesSum_eq _ (words_lt data), show (0 : UInt16).toNat = 0 from rfl]
  omega

/-- A checksum of zero goes out as all ones. -/
theorem verifies_sum {front back : Bytes} (even : front.length % 2 = 0) {n : Nat}
    (sum : n = (words front).sum + (words back).sum) :
    Verifies (front ++
      be16 (if ~~~ (UInt16.ofNat (foldCarry n n)) = 0 then 0xFFFF else ~~~ (UInt16.ofNat (foldCarry n n))) ++
      back) := by
  have value := complement_toNat n
  have small := canon_le n
  apply verifies_complement even
  rw [← sum]
  split
  next zero =>
    rw [zero, show (0 : UInt16).toNat = 0 from rfl] at value
    exact .inr ⟨rfl, by omega⟩
  · exact .inl value

theorem message_verifies {front back : Bytes} (even : front.length % 2 = 0) : Verifies (Icmp.message front back) := by
  apply verifies_complement even
  left
  rw [checksum_toNat, append_assoc, words_append even, words_append (by simp [be16]), sum_append, sum_append,
    words_be16]
  simp

/-! ## Frames -/

/-- The header verifies, and the owner of the destination hands up what was sent, from whom it was sent. -/
structure Carries (frame : Bytes) (src dst : Ip) (proto : UInt8) (payload : Bytes) : Prop where
  header : Verifies ((frame.drop 14).take 20)
  decodes : ∀ padding, Ipv4.parseFrame dst (frame ++ padding) = some ⟨src, dst, proto, payload⟩

section

variable (id : UInt16) (src dst : Ip) (proto : UInt8) (total : Nat)

theorem header_verifies : Verifies (Ipv4.header id src dst proto total) := by
  have even : (Ipv4.headerFront id proto total).length % 2 = 0 := by simp [Ipv4.headerFront, be16]
  exact message_verifies even

theorem header_length : (Ipv4.header id src dst proto total).length = 20 := by
  simp [Ipv4.header, Ipv4.headerFront, Ipv4.headerBack, be16, Ip.octets]

theorem header_fields (rest : Bytes) : octet (Ipv4.header id src dst proto total ++ rest) 0 = 0x45 ∧
      be16At (Ipv4.header id src dst proto total ++ rest) 2 = UInt16.ofNat total ∧
      be16At (Ipv4.header id src dst proto total ++ rest) 6 = 0 ∧
      octet (Ipv4.header id src dst proto total ++ rest) 9 = proto ∧
      Ipv4.ipAt (Ipv4.header id src dst proto total ++ rest) 12 = src ∧
      Ipv4.ipAt (Ipv4.header id src dst proto total ++ rest) 16 = dst := by
  refine ⟨rfl, ?_, ?_, rfl, rfl, rfl⟩
  · exact be16At_be16 (UInt16.ofNat total) []
  · exact be16At_be16 0 []

end

variable {payload : Bytes}

theorem frameBytes_carries (dstMac srcMac : Ipv4.Mac) (id : UInt16) (src dst : Ip) (proto : UInt8)
    (fits : 20 + payload.length ≤ 1500) :
    Carries (Ipv4.frameBytes dstMac srcMac id src dst proto payload) src dst proto payload := by
  obtain ⟨header, same⟩ : ∃ header, header = Ipv4.header id src dst proto (20 + payload.length) := ⟨_, rfl⟩
  have twenty : header.length = 20 := by rw [same, header_length]
  have verifies : Verifies header := by rw [same]; exact header_verifies _ _ _ _ _
  obtain ⟨macs, addresses⟩ : ∃ macs, macs = dstMac.octets ++ srcMac.octets := ⟨_, rfl⟩
  have twelve : macs.length = 12 := by rw [addresses, length_append, dstMac.six, srcMac.six]
  have text : ∀ padding : Bytes, Ipv4.frameBytes dstMac srcMac id src dst proto payload ++ padding =
      macs ++ (be16 Ipv4.etherType ++ (header ++ (payload ++ padding))) := by
    intro padding
    rw [same, addresses, Ipv4.frameBytes]
    simp
  have packet : ∀ padding : Bytes, (Ipv4.frameBytes dstMac srcMac id src dst proto payload ++ padding).drop 14 =
      header ++ (payload ++ padding) := by
    intro padding
    rw [text, show 14 = macs.length + 2 by rw [twelve], ← drop_drop, drop_left]
    rfl
  constructor
  · have alone := packet []
    rw [append_nil] at alone
    rw [alone, take_left' twenty]
    exact verifies
  · intro padding
    obtain ⟨version, total, flags, protocol, source, destination⟩ :=
      header_fields id src dst proto (20 + payload.length) (payload ++ padding)
    rw [← same] at version total flags protocol source destination
    have kind : be16At (Ipv4.frameBytes dstMac srcMac id src dst proto payload ++ padding) 12 = Ipv4.etherType := by
      rw [text, show 12 = macs.length + 0 by rw [twelve], ← be16At_drop, drop_left, be16At_be16]
    have length : (be16At (header ++ (payload ++ padding)) 2).toNat = 20 + payload.length := by
      rw [total, UInt16.toNat_ofNat', Nat.mod_eq_of_lt (by omega)]
    have long : (header ++ (payload ++ padding)).length = 20 + (payload.length + padding.length) := by
      rw [length_append, length_append, twenty]
    have enough : 34 ≤ (Ipv4.frameBytes dstMac srcMac id src dst proto payload ++ padding).length := by
      rw [text, length_append, length_append, show (be16 Ipv4.etherType).length = 2 from rfl]
      omega
    have ihl : ((0x45 : UInt8) &&& 0x0F).toNat * 4 = 20 := by decide
    have four : (0x45 : UInt8) >>> 4 = 4 := by decide
    have sized : ¬ ((decide ((0x45 : UInt8) >>> 4 ≠ 4) || decide (20 < 20) ||
        decide (20 + (payload.length + padding.length) < 20)) = true) := by
      simp [four]
    have whole : ¬ ((decide (20 + payload.length < 20) ||
        decide (20 + (payload.length + padding.length) < 20 + payload.length)) = true) := by
      simp
    have body : ((header ++ (payload ++ padding)).take (20 + payload.length)).drop 20 = payload := by
      rw [← append_assoc, take_left' (by rw [length_append, twenty]), drop_left' twenty]
    unfold Ipv4.parseFrame
    rw [if_neg (by omega), if_neg (not_not.mpr kind), packet]
    dsimp only
    rw [version, length, ihl, flags, destination, source, protocol, long, if_neg sized, if_neg whole,
      take_left' twenty, if_neg (not_not.mpr ((checksum_eq_zero header).mpr verifies)), if_neg (by decide),
      if_neg (by simp), body]

/-! ## Checksums with a pseudo-header -/

/-- What UDP and TCP sum in front of a datagram of `length` octets. -/
def pseudoHeader (src dst : Ip) (proto : UInt8) (length : Nat) : Bytes :=
  src.octets ++ dst.octets ++ [0, proto] ++ be16 (UInt16.ofNat length)

theorem pseudoHeader_sum (src dst : Ip) (proto : UInt8) {length : Nat} (fits : length < 65536) :
    (words (pseudoHeader src dst proto length)).sum =
      sumWords src.octets + sumWords dst.octets + proto.toNat + length := by
  have value : (UInt16.ofNat length).toNat = length := by rw [UInt16.toNat_ofNat', Nat.mod_eq_of_lt fits]
  have protocol : (words [0, proto]).sum = proto.toNat := by simp [words]
  have four : ∀ ip : Ip, ip.octets.length = 4 := fun ip => rfl
  unfold pseudoHeader
  rw [words_append (by simp [four]), words_append (by simp [four]), words_append (by simp [four]), sum_append,
    sum_append, sum_append, words_be16, value, protocol, sumWords_eq, sumWords_eq]

/-- A datagram verifies with the pseudo-header of these addresses. -/
def Matches (src dst : Ip) (proto : UInt8) (dgram : Bytes) : Prop :=
  Verifies (pseudoHeader src dst proto dgram.length ++ dgram)

/-- The checksum is computed with zeros in its place. -/
theorem matches_sum (src dst : Ip) (proto : UInt8) (head back : Bytes) (even : head.length % 2 = 0)
    (fits : head.length + 2 + back.length < 65536) {n : Nat}
    (sum : n = sumWords src.octets + sumWords dst.octets + proto.toNat + (head ++ be16 0 ++ back).length +
      sumWords (head ++ be16 0 ++ back)) : Matches src dst proto (head ++
      be16 (if ~~~ (UInt16.ofNat (foldCarry n n)) = 0 then 0xFFFF else ~~~ (UInt16.ofNat (foldCarry n n))) ++
      back) := by
  have long : ∀ ck : UInt16, (head ++ be16 ck ++ back).length = head.length + 2 + back.length := by
    intro ck
    rw [length_append, length_append, show (be16 ck).length = 2 from rfl]
  have front : (pseudoHeader src dst proto (head.length + 2 + back.length)).length % 2 = 0 := by
    simp [pseudoHeader, be16, Ip.octets]
  have both : n = (words (pseudoHeader src dst proto (head.length + 2 + back.length) ++ head)).sum +
      (words back).sum := by
    rw [sum, long, words_append front, sum_append, pseudoHeader_sum src dst proto fits,
      sumWords_eq (head ++ be16 0 ++ back),
      append_assoc head, words_append even, words_append (by simp [be16]), sum_append, sum_append, words_be16]
    simp [Nat.add_assoc]
  have verified := verifies_sum (by rw [length_append]; omega) both
  unfold Matches
  rw [long]
  simpa only [append_assoc] using verified

theorem datagram_matches (src dst : Ip) (dstPort srcPort : UInt16) (fits : 8 + payload.length ≤ 1472) :
    Matches src dst Ipv4.protoUdp (Udp.datagram src dst dstPort srcPort payload) := by
  have six : (be16 srcPort ++ be16 dstPort ++ be16 (UInt16.ofNat (8 + payload.length))).length = 6 := by simp [be16]
  exact matches_sum src dst Ipv4.protoUdp _ payload (by rw [six]) (by rw [six]; omega) rfl

/-- The urgent pointer stands behind the checksum. -/
theorem segmentBytes_matches (s : Tcb) (ourIp : Ip) (seq : UInt32) (flags : UInt8)
    (fits : 20 + payload.length < 65536) :
    Matches ourIp (Ip.ofU32 s.remoteIp) Ipv4.protoTcp (s.segmentBytes ourIp seq flags payload) := by
  obtain ⟨head, fields⟩ : ∃ head, head = be16 s.localPort.toUInt16 ++ be16 s.remotePort.toUInt16 ++ be32 seq ++
      be32 s.rcvNxt ++ [0x50, flags] ++ be16 s.window := ⟨_, rfl⟩
  have sixteen : head.length = 16 := by
    rw [fields]
    rfl
  have zeros : head ++ [0, 0, 0, 0] ++ payload = head ++ be16 0 ++ ([0, 0] ++ payload) := by
    rw [show be16 0 = [0, 0] from rfl]
    simp
  have room : head.length + 2 + ([0, 0] ++ payload : Bytes).length < 65536 := by
    rw [length_append, show ([0, 0] : Bytes).length = 2 from rfl]
    omega
  unfold Tcb.segmentBytes checksum
  dsimp only
  rw [← fields, zeros, append_assoc _ [0, 0] payload]
  exact matches_sum ourIp (Ip.ofU32 s.remoteIp) Ipv4.protoTcp head ([0, 0] ++ payload) (by rw [sixteen]) room rfl

theorem segmentBytes_length (s : Tcb) (ourIp : Ip) (seq : UInt32) (flags : UInt8) (payload : Bytes) :
    (s.segmentBytes ourIp seq flags payload).length = 20 + payload.length := by
  simp [Tcb.segmentBytes, be16]
  omega

/-! ## What is sent -/

variable {frame : Bytes} {link : Ipv4.Link} {proto : UInt8}

theorem send_carries {dst : Ip}
    (sent : link.send dst proto payload = some frame) : Carries frame link.ourIp dst proto payload := by
  obtain ⟨ourMac, -, built⟩ := Option.bind_eq_some_iff.mp sent
  split at built
  · cases built
  obtain ⟨hopMac, -, same⟩ := Option.map_eq_some_iff.mp built
  rw [← same]
  exact frameBytes_carries hopMac ourMac link.id link.ourIp dst proto (by omega)

theorem sendBroadcast_carries {src dst : Ip}
    (sent : link.sendBroadcast src dst proto payload = some frame) : Carries frame src dst proto payload := by
  obtain ⟨ourMac, -, built⟩ := Option.bind_eq_some_iff.mp sent
  split at built
  · cases built
  rw [← Option.some.inj built]
  exact frameBytes_carries Ipv4.macBroadcast ourMac link.id src dst proto (by omega)

theorem send_fits {dst : Ip} (sent : link.send dst proto payload = some frame) : 20 + payload.length ≤ 1500 := by
  obtain ⟨ourMac, -, built⟩ := Option.bind_eq_some_iff.mp sent
  split at built
  · cases built
  · omega

/-- A datagram reaches its receiver with the source it was given, and with a checksum for it. -/
theorem sendFrom_carries {src dst : Ip} {dstPort srcPort : UInt16} (source : src = link.ourIp ∨ src = ⟨0, 0, 0, 0⟩)
    (sent : Udp.sendFrom link src dst dstPort srcPort payload = some frame) :
    Carries frame src dst Ipv4.protoUdp (Udp.datagram src dst dstPort srcPort payload) ∧
      Matches src dst Ipv4.protoUdp (Udp.datagram src dst dstPort srcPort payload) := by
  unfold Udp.sendFrom at sent
  split at sent
  · cases sent
  have sums := datagram_matches src dst dstPort srcPort (by omega : 8 + payload.length ≤ 1472)
  split at sent
  · exact ⟨sendBroadcast_carries sent, sums⟩
  rename_i wide
  rw [Bool.or_eq_true, decide_eq_true_eq, decide_eq_true_eq, not_or] at wide
  have ours := source.resolve_right wide.1
  subst ours
  exact ⟨send_carries sent, sums⟩

theorem sendSegment_carries {s : Tcb} {seq : UInt32} {flags : UInt8}
    (sent : s.sendSegment link seq flags payload = some frame) :
    Carries frame link.ourIp (Ip.ofU32 s.remoteIp) Ipv4.protoTcp (s.segmentBytes link.ourIp seq flags payload) ∧
      Matches link.ourIp (Ip.ofU32 s.remoteIp) Ipv4.protoTcp (s.segmentBytes link.ourIp seq flags payload) := by
  have fits := send_fits sent
  rw [segmentBytes_length] at fits
  exact ⟨send_carries sent, segmentBytes_matches s link.ourIp seq flags (by omega)⟩

/-- An echo request that is answered is answered with a message that verifies. -/
theorem handle_carries {src : Ip} {body frame : Bytes} (sent : Icmp.handle link src body = some frame) :
    Carries frame link.ourIp src Ipv4.protoIcmp (Icmp.reply body) ∧ Verifies (Icmp.reply body) := by
  unfold Icmp.handle at sent
  split at sent
  · cases sent
  split at sent
  · cases sent
  split at sent
  · have even : [Icmp.typeEchoReply, octet body 1].length % 2 = 0 := by simp
    exact ⟨send_carries sent, message_verifies even⟩
  · cases sent

/-- Packets verify and decode at a receiver, whoever sends them: `ipv4::send` and `send_broadcast` with
any payload, TCP, ICMP, and UDP with our address or, for DHCP, with none. -/
theorem packets_verify (link : Ipv4.Link) : (∀ dst proto payload frame, link.send dst proto payload = some frame →
      Carries frame link.ourIp dst proto payload) ∧
    (∀ src dst proto payload frame, link.sendBroadcast src dst proto payload = some frame →
      Carries frame src dst proto payload) ∧
    (∀ (s : Tcb) seq flags payload frame, s.sendSegment link seq flags payload = some frame →
      Carries frame link.ourIp (Ip.ofU32 s.remoteIp) Ipv4.protoTcp (s.segmentBytes link.ourIp seq flags payload) ∧
        Matches link.ourIp (Ip.ofU32 s.remoteIp) Ipv4.protoTcp (s.segmentBytes link.ourIp seq flags payload)) ∧
    (∀ dst seq frame, Icmp.request link dst seq = some frame →
      Carries frame link.ourIp dst Ipv4.protoIcmp (Icmp.echo seq) ∧ Verifies (Icmp.echo seq)) ∧
    (∀ src body frame, Icmp.handle link src body = some frame →
      Carries frame link.ourIp src Ipv4.protoIcmp (Icmp.reply body) ∧ Verifies (Icmp.reply body)) ∧
    (∀ dst dstPort srcPort payload frame, Udp.send link dst dstPort srcPort payload = some frame →
      Carries frame link.ourIp dst Ipv4.protoUdp (Udp.datagram link.ourIp dst dstPort srcPort payload) ∧
        Matches link.ourIp dst Ipv4.protoUdp (Udp.datagram link.ourIp dst dstPort srcPort payload)) ∧
    ∀ buf frame, Udp.sendDhcp link buf = some frame →
      Carries frame ⟨0, 0, 0, 0⟩ Ipv4.broadcast Ipv4.protoUdp (Udp.datagram ⟨0, 0, 0, 0⟩ Ipv4.broadcast 67 68 buf) ∧
        Matches ⟨0, 0, 0, 0⟩ Ipv4.broadcast Ipv4.protoUdp (Udp.datagram ⟨0, 0, 0, 0⟩ Ipv4.broadcast 67 68 buf) := by
  refine ⟨?_, ?_, ?_, ?_, ?_, ?_, ?_⟩
  · exact fun dst proto payload frame sent => send_carries sent
  · exact fun src dst proto payload frame sent => sendBroadcast_carries sent
  · exact fun s seq flags payload frame sent => sendSegment_carries sent
  · exact fun dst seq frame sent => ⟨send_carries sent, message_verifies rfl⟩
  · exact fun src body frame sent => handle_carries sent
  · exact fun dst dstPort srcPort payload frame sent => sendFrom_carries (.inl rfl) sent
  · exact fun buf frame sent => sendFrom_carries (.inr rfl) sent

end BarryOS.Net
