import BarryOS.Lib.Run
import BarryOS.Net.Dhcp

/-!
# The lease that was asked for

What the client does to the addresses of the interface, over every sequence of messages and
ticks. `handle` does not look at the state: an ACK is taken whether or not it was asked for, and
an OFFER starts another exchange also when the client is bound. With the fixed address that
`net::tick` falls back to these are the only ways in which an address changes without an ACK that
answers the last REQUEST, or in which a lease is given up.
-/

namespace BarryOS.Net.Dhcp

open Lib

inductive Event where
  | datagram (now : UInt64) (payload : Bytes)
  | tick (now : UInt64)
  deriving DecidableEq

/-- The address requested and the server asked, as a REQUEST has them. -/
def requestOf (packet : Bytes) : Option (UInt32 × UInt32) :=
  if slice packet 240 245 = [optMessageType, 1, msgRequest, optRequestedIp, 4] ∧
    slice packet 249 251 = [optServerId, 4] then
    some (be32At packet 245, be32At packet 251)
  else none

namespace Client

def step (mac : Option Ipv4.Mac) (c : Client) : Event → Client
  | .datagram now payload => (c.handle now mac payload).getD c
  | .tick now => c.netTick now mac

/-- The address, mask, gateway and DNS server of the interface. -/
def config (c : Client) : UInt32 × UInt32 × UInt32 × UInt32 := (c.ourIp, c.mask, c.gateway, c.dnsServer)

/-- The last REQUEST sent. -/
def lastRequest (c : Client) : Option (UInt32 × UInt32) := (c.wire.filterMap requestOf).getLast?

/-- An ACK to the last REQUEST, from the server that it was sent to. -/
structure Answered (c : Client) (payload : Bytes) : Prop where
  hears : c.hears payload = true
  requesting : c.state = .requesting
  answer : ∃ o server, options payload = some o ∧ o.msgType = msgAck ∧ o.serverId.map Ip.toU32 = some server ∧
    c.lastRequest = some (yourIp payload, server)

/-- A step takes only the lease that was asked for, and keeps one that it has. -/
structure Faithful (mac : Option Ipv4.Mac) (c : Client) (e : Event) : Prop where
  asked : (c.step mac e).config ≠ c.config → ∃ now payload, e = .datagram now payload ∧ c.Answered payload
  kept : c.state = .bound → (c.step mac e).state = .bound ∧ (c.step mac e).ourIp = c.ourIp

/-! ## What the code would have to check -/

/-- The ACK that is waited for. -/
def Expects (c : Client) (ip : UInt32) (o : Options) : Prop :=
  c.state = .requesting ∧ ip = c.offeredIp ∧ o.serverId.map Ip.toU32 = some c.serverId

/-- An ACK that brings nothing new. -/
def Repeats (c : Client) (ip : UInt32) (o : Options) : Prop :=
  ip = c.ourIp ∧ (∀ m ∈ o.mask, m.toU32 = c.mask) ∧ (∀ r ∈ o.router, r.toU32 = c.gateway) ∧
    ∀ d ∈ o.dnsServer, d.toU32 = c.dnsServer

/-- The client has given up, or does so now. -/
def Expires (c : Client) (now : UInt64) : Prop :=
  c.state = .failed ∨ (c.state = .discovering ∨ c.state = .requesting) ∧
    retryTicks ≤ now.toNat - c.lastSend.toNat ∧ maxAttempts ≤ c.attempts + 1

/-- An OFFER comes before a lease, an ACK when it is waited for, and the server answers in time. -/
def Orderly (c : Client) : Event → Prop
  | .datagram _ payload => c.hears payload = true → ∀ o ∈ options payload,
      (o.msgType = msgOffer → c.state ≠ .bound) ∧
        (o.msgType = msgAck → c.Expects (yourIp payload) o ∨ c.Repeats (yourIp payload) o)
  | .tick now => c.Expires now → c.fallbackApplied = true ∨ c.ourIp = fallbackIp.toU32

end Client

/-! ## Requests on the wire -/

variable (xid : UInt32) (mac : Option Ipv4.Mac)

theorem basePacket_length : (basePacket xid mac).length = 240 := by
  cases mac with
  | none => rfl
  | some m => simp [basePacket, m.six, magicCookie, be16]

theorem pushOption_fits {done data : Bytes} (code : UInt8) (fits : done.length + 2 + data.length < bufferSize) :
    pushOption done code data = done ++ code :: UInt8.ofNat data.length :: data := by
  exact if_neg (by omega)

theorem request_options (ip server : UInt32) : ∃ rest, (request xid mac ip server).drop 240 =
      [optMessageType, 1, msgRequest, optRequestedIp, 4] ++ be32 ip ++ ([optServerId, 4] ++ be32 server ++ rest) := by
  have long := basePacket_length xid mac
  have size : bufferSize = 300 := rfl
  have list : paramList.length = 4 := rfl
  unfold request finish
  dsimp only
  rw [pushOption_fits optMessageType (by simp [long, size]), pushOption_fits optRequestedIp (by simp [long, size]),
    pushOption_fits optServerId (by simp [long, size]), pushOption_fits optParamList (by simp [long, size, list])]
  simp only [List.append_assoc, List.drop_left' long]
  exact ⟨_, rfl⟩

@[simp] theorem requestOf_request (ip server : UInt32) : requestOf (request xid mac ip server) = some (ip, server) := by
  obtain ⟨rest, behind⟩ := request_options xid mac ip server
  obtain ⟨packet, same⟩ : ∃ packet, packet = request xid mac ip server := ⟨_, rfl⟩
  rw [← same] at behind ⊢
  have address : packet.drop 245 = be32 ip ++ ([optServerId, 4] ++ be32 server ++ rest) := by
    have := congrArg (List.drop 5) behind
    rwa [List.drop_drop] at this
  have id : packet.drop 251 = be32 server ++ rest := by
    have := congrArg (List.drop 11) behind
    rwa [List.drop_drop] at this
  unfold requestOf
  rw [if_pos]
  · rw [← Nat.add_zero 245, ← be32At_drop, address, be32At_be32, ← Nat.add_zero 251, ← be32At_drop, id, be32At_be32]
  · constructor
    · rw [slice, behind]
      rfl
    · have := congrArg (List.drop 9) behind
      rw [List.drop_drop] at this
      rw [slice, this]
      rfl

/-! ## The steps -/

namespace Client

variable {mac : Option Ipv4.Mac} {c : Client} (now : UInt64)

@[simp] theorem lastRequest_sendRequest (c : Client) :
    (c.sendRequest now mac).lastRequest = some (c.offeredIp, c.serverId) := by
  simp [lastRequest, sendRequest]

/-- What a message does: nothing, or what its type says. -/
theorem datagram_cases (mac : Option Ipv4.Mac) (c : Client) (now : UInt64) (payload : Bytes) :
    c.hears payload = false ∧ c.step mac (.datagram now payload) = c ∨
      ∃ o, c.hears payload = true ∧ options payload = some o ∧
        (o.msgType = msgOffer ∧ c.step mac (.datagram now payload) = c.offer now mac (yourIp payload) o ∨
          o.msgType = msgAck ∧ c.step mac (.datagram now payload) = c.ack (yourIp payload) o ∨
          o.msgType ≠ msgOffer ∧ o.msgType ≠ msgAck ∧ c.step mac (.datagram now payload) = c) := by
  unfold step handle
  dsimp only
  by_cases hears : c.hears payload = true
  · obtain ⟨o, walked⟩ := options_total payload
    refine .inr ⟨o, hears, walked, ?_⟩
    rw [if_pos hears, walked, Option.map_some]
    by_cases offer : o.msgType = msgOffer
    · exact .inl ⟨offer, if_pos offer⟩
    rw [if_neg offer]
    by_cases ack : o.msgType = msgAck
    · exact .inr (.inl ⟨ack, if_pos ack⟩)
    · exact .inr (.inr ⟨offer, ack, if_neg ack⟩)
  · rw [if_neg hears]
    exact .inl ⟨Bool.eq_false_iff.mpr hears, rfl⟩

/-- What a tick of the client does: nothing, give up, or send again. -/
theorem tick_cases (mac : Option Ipv4.Mac) (c : Client) (now : UInt64) : ¬ c.Expires now ∧ c.tick now mac = c ∨
    c.Expires now ∧ (c.tick now mac).state = .failed ∧ (c.tick now mac).config = c.config ∧
      (c.tick now mac).fallbackApplied = c.fallbackApplied ∨ ¬ c.Expires now ∧ c.state = .discovering ∧
      c.tick now mac = ({ c with attempts := c.attempts + 1 } : Client).sendDiscover now mac ∨
    ¬ c.Expires now ∧ c.state = .requesting ∧
      c.tick now mac = ({ c with attempts := c.attempts + 1 } : Client).sendRequest now mac := by
  unfold tick
  by_cases busy : c.state = .discovering ∨ c.state = .requesting
  · have going : ¬ (c.state = .bound || c.state = .failed || c.state = .idle) = true := by
      rcases busy with state | state <;> simp [state]
    have alive : c.state ≠ .failed := by
      rcases busy with state | state <;> simp [state]
    rw [if_neg going]
    by_cases soon : now.toNat - c.lastSend.toNat < retryTicks
    · rw [if_pos soon]
      refine .inl ⟨?_, rfl⟩
      rintro (failed | ⟨-, late, -⟩)
      · exact alive failed
      · omega
    rw [if_neg soon]
    by_cases last : c.attempts + 1 ≥ maxAttempts
    · rw [if_pos last]
      exact .inr (.inl ⟨.inr ⟨busy, by omega, last⟩, rfl, rfl, rfl⟩)
    rw [if_neg last]
    have more : ¬ c.Expires now := by
      rintro (failed | ⟨-, -, out⟩)
      · exact alive failed
      · exact last out
    rcases busy with state | state
    · rw [if_pos state]
      exact .inr (.inr (.inl ⟨more, state, rfl⟩))
    rw [if_neg (by simp [state])]
    exact .inr (.inr (.inr ⟨more, state, rfl⟩))
  · rw [not_or] at busy
    cases state : c.state with
    | idle => simp [Expires, state]
    | bound => simp [Expires, state]
    | failed => simp [Expires, state]
    | discovering => exact absurd state busy.1
    | requesting => exact absurd state busy.2

/-- While the client waits for an ACK, its last REQUEST is for the address and to the server that it keeps. -/
def Asking (c : Client) : Prop := c.state = .requesting → c.lastRequest = some (c.offeredIp, c.serverId)

theorem asking_boot : Asking (boot now mac) := by
  intro requesting
  cases requesting

theorem asking_netTick (h : Asking c) (now : UInt64) : Asking (c.netTick now mac) := by
  have ticked : Asking (c.tick now mac) := by
    rcases tick_cases mac c now with ⟨-, same⟩ | ⟨-, failed, -⟩ | ⟨-, state, sent⟩ | ⟨-, state, sent⟩
    · rw [same]
      exact h
    · intro requesting
      rw [failed] at requesting
      cases requesting
    · intro requesting
      rw [sent, state] at requesting
      cases requesting
    · intro _
      rw [sent]
      exact lastRequest_sendRequest now _
  unfold netTick
  dsimp only
  split
  · exact ticked
  · exact ticked

theorem asking_step (h : Asking c) (e : Event) : Asking (c.step mac e) := by
  cases e with
  | tick now => exact asking_netTick h now
  | datagram now payload =>
    rcases datagram_cases mac c now payload with
      ⟨-, same⟩ | ⟨o, -, -, ⟨-, offered⟩ | ⟨-, acked⟩ | ⟨-, -, same⟩⟩
    · rw [same]
      exact h
    · intro _
      rw [offered]
      exact lastRequest_sendRequest now _
    · intro requesting
      rw [acked] at requesting
      cases requesting
    · rw [same]
      exact h

/-! ## Step by step -/

theorem ack_config (ip : UInt32) (o : Options) (c : Client) : (c.ack ip o).config = c.config ↔ c.Repeats ip o := by
  have kept : ∀ (a : Option Ip) (v : UInt32), (a.map Ip.toU32).getD v = v ↔ ∀ x ∈ a, x.toU32 = v := by
    intro a v
    cases a with
    | none => simp
    | some x => simp
  simp only [config, ack, Prod.mk.injEq, Ip.toU32_ofU32, kept, Repeats]

/-- The ACK that is waited for answers the last REQUEST. -/
theorem answered_iff (h : Asking c) {payload : Bytes} {o : Options} (hears : c.hears payload = true)
    (walked : options payload = some o) (ack : o.msgType = msgAck) :
    c.Answered payload ↔ c.Expects (yourIp payload) o := by
  constructor
  · rintro ⟨-, requesting, o', server, walked', -, id, last⟩
    obtain rfl : o = o' := Option.some.inj (walked.symm.trans walked')
    rw [h requesting, Option.some.injEq, Prod.mk.injEq] at last
    exact ⟨requesting, last.1.symm, last.2 ▸ id⟩
  · rintro ⟨requesting, address, id⟩
    refine ⟨hears, requesting, o, c.serverId, walked, ack, id, ?_⟩
    rw [h requesting, address]

theorem faithful_of_same {e : Event} (same : c.step mac e = c) : c.Faithful mac e where
  asked := fun changed => absurd (congrArg config same) changed
  kept := fun bound => by
    rw [same]
    exact ⟨bound, rfl⟩

theorem faithful_datagram (h : Asking c) (now : UInt64) (payload : Bytes) :
    c.Faithful mac (.datagram now payload) ↔ c.Orderly (.datagram now payload) := by
  rcases datagram_cases mac c now payload with
    ⟨deaf, same⟩ | ⟨o, hears, walked, ⟨type, offered⟩ | ⟨type, acked⟩ | ⟨noOffer, noAck, same⟩⟩
  · refine iff_of_true (faithful_of_same same) fun hears => ?_
    rw [deaf] at hears
    cases hears
  · have noAck : o.msgType ≠ msgAck := by
      rw [type]
      decide
    constructor
    · rintro ⟨-, kept⟩ - o' walked'
      obtain rfl : o = o' := Option.some.inj (walked.symm.trans walked')
      refine ⟨fun _ bound => ?_, fun ack => absurd ack noAck⟩
      have still := (kept bound).1
      rw [offered] at still
      cases still
    · intro orderly
      refine ⟨fun changed => ?_, fun bound => absurd bound ((orderly hears o walked).1 type)⟩
      rw [offered] at changed
      exact absurd rfl changed
  · constructor
    · rintro ⟨asked, kept⟩ - o' walked'
      obtain rfl : o = o' := Option.some.inj (walked.symm.trans walked')
      refine ⟨fun offer => ?_, fun _ => ?_⟩
      · rw [type] at offer
        cases offer
      · by_cases changed : (c.step mac (.datagram now payload)).config = c.config
        · rw [acked, ack_config] at changed
          exact .inr changed
        obtain ⟨_, _, event, answered⟩ := asked changed
        cases event
        exact .inl ((answered_iff h hears walked type).mp answered)
    · intro orderly
      have expected := (orderly hears o walked).2 type
      refine ⟨fun changed => ?_, fun bound => ?_⟩
      · rcases expected with expects | repeats
        · exact ⟨now, payload, rfl, (answered_iff h hears walked type).mpr expects⟩
        rw [acked] at changed
        exact absurd ((ack_config _ _ _).mpr repeats) changed
      · rcases expected with expects | repeats
        · rw [expects.1] at bound
          cases bound
        rw [acked]
        exact ⟨rfl, congrArg Prod.fst ((ack_config _ _ _).mpr repeats)⟩
  · refine iff_of_true (faithful_of_same same) fun _ o' walked' => ?_
    obtain rfl : o = o' := Option.some.inj (walked.symm.trans walked')
    exact ⟨fun offer => absurd offer noOffer, fun ack => absurd ack noAck⟩

theorem netTick_alive {now : UInt64} (alive : (c.tick now mac).state ≠ .failed) :
    c.netTick now mac = c.tick now mac := by
  exact if_neg (by simp [alive])

/-- Without giving up, a tick changes no address and does not leave a lease. -/
theorem tick_alive (mac : Option Ipv4.Mac) {now : UInt64} (going : ¬ c.Expires now) :
    (c.netTick now mac).config = c.config ∧ (c.netTick now mac).state = c.state := by
  rcases tick_cases mac c now with ⟨-, same⟩ | ⟨expires, -⟩ | ⟨-, state, sent⟩ | ⟨-, state, sent⟩
  · have alive : (c.tick now mac).state ≠ .failed := by
      rw [same]
      exact fun failed => going (.inl failed)
    rw [netTick_alive alive, same]
    exact ⟨rfl, rfl⟩
  · exact absurd expires going
  · have alive : (c.tick now mac).state ≠ .failed := by
      rw [sent, sendDiscover, state]
      decide
    rw [netTick_alive alive, sent]
    exact ⟨rfl, rfl⟩
  · have alive : (c.tick now mac).state ≠ .failed := by
      rw [sent, sendRequest, state]
      decide
    rw [netTick_alive alive, sent]
    exact ⟨rfl, rfl⟩

/-- Giving up puts the fixed address on the interface, once. -/
theorem tick_expired {now : UInt64} (expires : c.Expires now) : (c.netTick now mac).config =
      if c.fallbackApplied then c.config else (fallbackIp.toU32, c.mask, c.gateway, c.dnsServer) := by
  rcases tick_cases mac c now with ⟨going, -⟩ | ⟨-, failed, config, flag⟩ | ⟨going, -⟩ | ⟨going, -⟩
  · exact absurd expires going
  · unfold netTick
    dsimp only
    rw [flag]
    cases c.fallbackApplied with
    | true => simpa using config
    | false =>
      simp only [Client.config, Prod.mk.injEq] at config
      simp [failed, Client.config, config]
  · exact absurd expires going
  · exact absurd expires going

theorem faithful_tick : c.Faithful mac (.tick now) ↔ c.Orderly (.tick now) := by
  by_cases expires : c.Expires now
  · have leased : c.state ≠ .bound := by
      rcases expires with state | ⟨state | state, -⟩ <;> simp [state]
    have after : (c.step mac (.tick now)).config =
      if c.fallbackApplied then c.config else (fallbackIp.toU32, c.mask, c.gateway, c.dnsServer) := tick_expired expires
    constructor
    · intro faithful _
      by_contra neither
      rw [not_or] at neither
      rw [if_neg neither.1] at after
      have changed : (c.step mac (.tick now)).config ≠ c.config := by
        rw [after]
        exact fun same => neither.2 (congrArg Prod.fst same).symm
      obtain ⟨_, _, event, _⟩ := faithful.asked changed
      cases event
    · intro orderly
      refine ⟨fun changed => absurd ?_ changed, fun bound => absurd bound leased⟩
      rw [after]
      rcases orderly expires with applied | fallback
      · rw [if_pos applied]
      rw [← fallback]
      exact ite_self _
  · obtain ⟨config, state⟩ := tick_alive mac expires
    refine iff_of_true ⟨fun changed => absurd config changed, fun bound => ?_⟩ fun expires' => absurd expires' expires
    exact ⟨state.trans bound, congrArg Prod.fst config⟩

/-- In every run the addresses change only by an ACK to the last REQUEST, and a lease is kept, exactly if the
server is orderly. -/
theorem faithful_iff (mac : Option Ipv4.Mac) (now : UInt64) (es : List Event) :
    Along (step mac) (Faithful mac) (boot now mac) es ↔ Along (step mac) Orderly (boot now mac) es := by
  refine along_congr Asking (fun c e h => asking_step h e) (fun c e h => ?_) (asking_boot now) es
  cases e with
  | datagram now payload => exact faithful_datagram h now payload
  | tick now => exact faithful_tick now

/-- An ACK for 10.0.0.5 that nobody asked for. -/
def strayAck : Bytes :=
  [opReply, 1, 6, 0] ++ be32 0x0B050B05 ++ zeros 8 ++ [10, 0, 0, 5] ++ zeros 216 ++ magicCookie ++
    [optMessageType, 1, msgAck, optEnd]

/-- The first message of a run can be an ACK, and the client takes its address. -/
theorem stray_ack_taken : ¬ ∀ (mac : Option Ipv4.Mac) (now : UInt64) (es : List Event),
    Along (step mac) (Faithful mac) (boot now mac) es := by
  intro always
  have faithful := (always none 0 [.datagram 0 strayAck]).1
  have changed : ((boot 0 none).step none (.datagram 0 strayAck)).config ≠ (boot 0 none).config := by decide +kernel
  obtain ⟨_, _, _, answered⟩ := faithful.asked changed
  have waiting : (boot 0 none).state = .requesting := answered.requesting
  cases waiting

end Client

end BarryOS.Net.Dhcp
