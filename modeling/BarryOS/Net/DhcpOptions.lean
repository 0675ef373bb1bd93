import BarryOS.Net.Dhcp

/-!
# The options of an ACK

A well-formed sequence of options (RFC 2132) as a list of items, against the walk of `handle`.
The walk keeps an address only from an option of exactly four octets, so a list of routers or of
DNS servers is skipped unless it has one entry.
-/

namespace BarryOS.Net.Dhcp

open Lib Options Option

/-- A pad octet, or an option with its data. -/
inductive Item where
  | pad
  | opt (code : UInt8) (data : Bytes)
  deriving DecidableEq

namespace Item

def encode : Item → Bytes
  | pad => [0]
  | opt code data => code :: UInt8.ofNat data.length :: data

def code? : Item → Option UInt8
  | pad => none
  | opt code _ => some code

end Item

/-- The data of an option. -/
def valueOf (code : UInt8) : List Item → Option Bytes
  | [] => none
  | .pad :: items => valueOf code items
  | .opt c data :: items => if c = code then some data else valueOf code items

/-- The length that an option of this code has. -/
structure Shaped (code : UInt8) (data : Bytes) : Prop where
  proper : code ≠ 0 ∧ code ≠ optEnd
  short : data.length < 256
  type : code = optMessageType → data.length = 1
  mask : code = optSubnetMask → data.length = 4
  routers : code = optRouter → data.length ≠ 0 ∧ 4 ∣ data.length
  servers : code = optDns → data.length ≠ 0 ∧ 4 ∣ data.length
  server : code = optServerId → data.length = 4
  lease : code = optLeaseTime → data.length = 4

/-- Options in any order, each once, with pads anywhere. -/
structure WellFormed (items : List Item) : Prop where
  shaped : ∀ code data, .opt code data ∈ items → Shaped code data
  once : (items.filterMap Item.code?).Nodup

/-- An ACK with these options, as the client accepts it. -/
structure AckWith (c : Client) (items : List Item) (payload : Bytes) : Prop where
  hears : c.hears payload = true
  laid : ∃ front rest, front.length = 240 ∧ payload = front ++ (items.flatMap Item.encode ++ optEnd :: rest)
  wellFormed : WellFormed items
  type : valueOf optMessageType items = some [msgAck]

/-- The first address of a list. -/
def firstIp (data : Bytes) : UInt32 := (Ipv4.ipAt data 0).toU32

/-- What the options say is set, and nothing else. -/
structure Sets (items : List Item) (c c' : Client) : Prop where
  mask : c'.mask = ((valueOf optSubnetMask items).map firstIp).getD c.mask
  gateway : c'.gateway = ((valueOf optRouter items).map firstIp).getD c.gateway
  dnsServer : c'.dnsServer = ((valueOf optDns items).map firstIp).getD c.dnsServer
  lease : c'.leaseSecs = ((valueOf optLeaseTime items).map fun data => be32At data 0).getD c.leaseSecs

/-- One router and one DNS server at most, or what comes first is set already. -/
def Single (items : List Item) (c : Client) : Prop :=
  (∀ data ∈ valueOf optRouter items, data.length = 4 ∨ firstIp data = c.gateway) ∧
    ∀ data ∈ valueOf optDns items, data.length = 4 ∨ firstIp data = c.dnsServer

/-! ## The walk -/

def Options.takeItem (o : Options) : Item → Options
  | .pad => o
  | .opt code data => o.take code data

variable {rest : Bytes}

section Rounds

variable {payload : Bytes} {i : Nat}

theorem getElem?_of_drop {b : UInt8} (here : payload.drop i = b :: rest) :
    i < payload.length ∧ payload[i]? = some b := by
  have found : payload[i]? = some b := by
    rw [← List.head?_drop, here, List.head?_cons]
  exact ⟨(List.getElem?_eq_some_iff.mp found).1, found⟩

theorem walk_end (here : payload.drop i = optEnd :: rest) (fuel : Nat) (o : Options) :
    walk payload (fuel + 1) i o = some o := by
  obtain ⟨inside, found⟩ := getElem?_of_drop here
  rw [walk, if_pos inside, found, bind_some, if_pos rfl]

theorem walk_pad (here : payload.drop i = 0 :: rest) (fuel : Nat) (o : Options) :
    walk payload (fuel + 1) i o = walk payload fuel (i + 1) o := by
  obtain ⟨inside, found⟩ := getElem?_of_drop here
  rw [walk, if_pos inside, found, bind_some, if_neg (by decide), if_pos rfl]

theorem walk_opt {code : UInt8} {data : Bytes} (shaped : Shaped code data)
    (here : payload.drop i = code :: UInt8.ofNat data.length :: (data ++ rest)) (fuel : Nat) (o : Options) :
    walk payload (fuel + 1) i o = walk payload fuel (i + 2 + data.length) (o.take code data) := by
  obtain ⟨inside, found⟩ := getElem?_of_drop here
  have next : payload.drop (i + 1) = UInt8.ofNat data.length :: (data ++ rest) := by
    rw [← List.drop_drop, here, List.drop_succ_cons, List.drop_zero]
  obtain ⟨inside', found'⟩ := getElem?_of_drop next
  have behind : payload.drop (i + 2) = data ++ rest := by
    rw [← List.drop_drop, here, List.drop_succ_cons, List.drop_succ_cons, List.drop_zero]
  have size : (UInt8.ofNat data.length).toNat = data.length := by
    exact Nat.mod_eq_of_lt shaped.short
  have room : i + 2 + data.length ≤ payload.length := by
    have total := congrArg List.length here
    simp only [List.length_drop, List.length_cons, List.length_append] at total
    omega
  have taken : slice? payload (i + 2) (i + 2 + data.length) = some data := by
    rw [slice?, if_pos ⟨by omega, room⟩, slice, behind, Nat.add_sub_cancel_left, List.take_left]
  rw [walk, if_pos inside, found, bind_some, if_neg shaped.proper.2, if_neg shaped.proper.1, if_neg (by omega),
    found', bind_some, size, if_neg (by omega), taken, bind_some]

end Rounds

/-- Item by item, from where the options start. -/
theorem walk_items (payload rest : Bytes) (items : List Item)
    (shaped : ∀ code data, .opt code data ∈ items → Shaped code data) (i fuel : Nat) (o : Options)
    (here : payload.drop i = items.flatMap Item.encode ++ optEnd :: rest) (enough : items.length < fuel) :
    walk payload fuel i o = some (items.foldl takeItem o) := by
  induction items generalizing i fuel o with
  | nil =>
    obtain ⟨fuel, rfl⟩ : ∃ n, fuel = n + 1 := ⟨fuel - 1, by simp at enough; omega⟩
    exact walk_end here fuel o
  | cons item items ih =>
    rw [List.length_cons] at enough
    obtain ⟨fuel, rfl⟩ : ∃ n, fuel = n + 1 := ⟨fuel - 1, by omega⟩
    have shaped' : ∀ code data, .opt code data ∈ items → Shaped code data :=
      fun code data member => shaped code data (List.mem_cons_of_mem _ member)
    rw [List.flatMap_cons, List.append_assoc] at here
    cases item with
    | pad =>
      rw [walk_pad here]
      apply ih shaped' _ _ _ _ (by omega)
      rw [← List.drop_drop, here]
      rfl
    | opt code data =>
      rw [walk_opt (shaped code data List.mem_cons_self) here]
      apply ih shaped' _ _ _ _ (by omega)
      rw [Nat.add_assoc, ← List.drop_drop, here, Nat.add_comm 2]
      simp [Item.encode]

theorem length_le_encode (items : List Item) : items.length ≤ (items.flatMap Item.encode).length := by
  induction items with
  | nil => exact Nat.le_refl 0
  | cons item items ih =>
    have some' : 1 ≤ item.encode.length := by
      cases item <;> simp [Item.encode]
    rw [List.flatMap_cons, List.length_append, List.length_cons]
    omega

variable {items : List Item}

theorem AckWith.options {c : Client} {payload : Bytes} (h : AckWith c items payload) :
    options payload = some (items.foldl takeItem {}) := by
  obtain ⟨front, rest, size, rfl⟩ := h.laid
  have few := length_le_encode items
  apply walk_items _ rest items h.wellFormed.shaped
  · rw [List.drop_left' size]
  · simp only [List.length_append]
    omega

/-! ## What the walk keeps -/

theorem valueOf_none {code : UInt8} (absent : code ∉ items.filterMap Item.code?) : valueOf code items = none := by
  induction items with
  | nil => rfl
  | cons item items ih =>
    cases item with
    | pad => exact ih absent
    | opt c data =>
      have apart : ¬ (code = c ∨ code ∈ items.filterMap Item.code?) := by simpa [Item.code?] using absent
      rw [not_or] at apart
      rw [valueOf, if_neg (Ne.symm apart.1)]
      exact ih apart.2

/-- A field that an option of one code sets holds what that option says. -/
theorem kept_field {β : Type} (field : Options → β) (code : UInt8) (f : Bytes → β)
    (sets : ∀ o c data, Shaped c data → field (o.take c data) = if c = code then f data else field o)
    (h : WellFormed items) (o : Options) :
    field (items.foldl takeItem o) = ((valueOf code items).map f).getD (field o) := by
  obtain ⟨shaped, once⟩ := h
  induction items generalizing o with
  | nil => rfl
  | cons item items ih =>
    have shaped' : ∀ c data, .opt c data ∈ items → Shaped c data :=
      fun c data member => shaped c data (List.mem_cons_of_mem _ member)
    rw [List.foldl_cons]
    cases item with
    | pad => exact ih o shaped' once
    | opt c data =>
      have once' : c ∉ items.filterMap Item.code? ∧ (items.filterMap Item.code?).Nodup := by
        simpa [Item.code?] using once
      rw [ih _ shaped' once'.2, takeItem, sets o c data (shaped c data List.mem_cons_self), valueOf]
      by_cases here : c = code
      · rw [if_pos here, if_pos here, valueOf_none (here ▸ once'.1)]
        rfl
      · rw [if_neg here, if_neg here]

theorem four_eq (data : Bytes) : four data = if data.length = 4 then some (Ipv4.ipAt data 0) else none := by
  rcases data with _ | ⟨a, _ | ⟨b, _ | ⟨c, _ | ⟨d, _ | ⟨e, rest⟩⟩⟩⟩⟩ <;> simp [four, Ipv4.ipAt, octet]

section Fields

variable (o : Options) (c : UInt8) (data : Bytes)

theorem take_msgType (shaped : Shaped c data) :
    (o.take c data).msgType = if c = optMessageType then octet data 0 else o.msgType := by
  unfold take
  by_cases here : c = optMessageType
  · rw [if_pos ⟨here, shaped.type here⟩, if_pos here]
  rw [if_neg fun both => here both.1]
  split_ifs <;> rfl

theorem take_mask : (o.take c data).mask = if c = optSubnetMask then four data else o.mask := by
  unfold take
  by_cases here : c = optSubnetMask
  · subst here
    simp [optSubnetMask, optMessageType]
  split_ifs <;> rfl

theorem take_router : (o.take c data).router = if c = optRouter then four data else o.router := by
  unfold take
  by_cases here : c = optRouter
  · subst here
    simp [optRouter, optMessageType, optSubnetMask]
  split_ifs <;> rfl

theorem take_dnsServer : (o.take c data).dnsServer = if c = optDns then four data else o.dnsServer := by
  unfold take
  by_cases here : c = optDns
  · subst here
    simp [optDns, optMessageType, optSubnetMask, optRouter]
  split_ifs <;> rfl

theorem take_lease (shaped : Shaped c data) :
    (o.take c data).lease = if c = optLeaseTime then some (be32At data 0) else o.lease := by
  unfold take
  by_cases here : c = optLeaseTime
  · have whole := shaped.lease here
    subst here
    simp [optLeaseTime, optSubnetMask, optRouter, optDns, optServerId, whole]
  have no : ¬ (c = optLeaseTime ∧ data.length = 4) := fun both => here both.1
  split_ifs <;> rfl

end Fields

theorem valueOf_mem {code : UInt8} {data : Bytes} (found : valueOf code items = some data) :
    .opt code data ∈ items := by
  induction items with
  | nil => cases found
  | cons item items ih =>
    cases item with
    | pad => exact List.mem_cons_of_mem _ (ih found)
    | opt c d =>
      rw [valueOf] at found
      split at found
      next here =>
        cases found
        rw [here]
        exact List.mem_cons_self
      · exact List.mem_cons_of_mem _ (ih found)

/-! ## What is set -/

/-- The address that an option of four octets leaves behind. -/
theorem four_getD (value : Option Bytes) (old : UInt32) :
    (((value.map four).getD none).map Ip.toU32).getD old = (value.map firstIp).getD old ↔
      ∀ data ∈ value, data.length = 4 ∨ firstIp data = old := by
  cases value with
  | none => simp
  | some data =>
    by_cases whole : data.length = 4
    · simp [four_eq, whole, firstIp]
    · simp [four_eq, whole, eq_comm]

theorem AckWith.handle {c : Client} {payload : Bytes} (h : AckWith c items payload) (now : UInt64)
    (mac : Option Ipv4.Mac) : c.handle now mac payload = some (c.ack (yourIp payload) (items.foldl takeItem {})) := by
  have type : (items.foldl takeItem {}).msgType = msgAck := by
    rw [kept_field msgType optMessageType _ take_msgType h.wellFormed, h.type]
    rfl
  rw [Client.handle, if_pos h.hears, h.options, map_some, type, if_neg (by decide), if_pos rfl]

/-- The walk ends on whatever octets. An accepted ACK sets the mask, the first router, the first DNS server and
the lease exactly if it does not list several routers or servers. -/
theorem ack_sets_iff (c : Client) (payload : Bytes) (now : UInt64) (mac : Option Ipv4.Mac) :
    (∃ o, options payload = some o) ∧ ∀ items : List Item, AckWith c items payload →
      ((∃ c', c.handle now mac payload = some c' ∧ Sets items c c') ↔ Single items c) := by
  refine ⟨options_total payload, fun items h => ?_⟩
  have mask := kept_field mask optSubnetMask _ (fun o c data _ => take_mask o c data) h.wellFormed {}
  have router := kept_field router optRouter _ (fun o c data _ => take_router o c data) h.wellFormed {}
  have dnsServer := kept_field dnsServer optDns _ (fun o c data _ => take_dnsServer o c data) h.wellFormed {}
  have lease := kept_field lease optLeaseTime _ take_lease h.wellFormed {}
  have masked : ∀ data ∈ valueOf optSubnetMask items, data.length = 4 ∨ firstIp data = c.mask :=
    fun data found => .inl ((h.wellFormed.shaped _ _ (valueOf_mem found)).mask rfl)
  have leased : (((valueOf optLeaseTime items).map fun data => some (be32At data 0)).getD none).getD c.leaseSecs =
      ((valueOf optLeaseTime items).map fun data => be32At data 0).getD c.leaseSecs := by
    cases valueOf optLeaseTime items <;> rfl
  rw [h.handle]
  unfold Single
  rw [← four_getD, ← four_getD]
  constructor
  · rintro ⟨c', same, sets⟩
    cases same
    have gateway := sets.gateway
    have server := sets.dnsServer
    rw [Client.ack, router] at gateway
    rw [Client.ack, dnsServer] at server
    exact ⟨gateway, server⟩
  · rintro ⟨gateway, server⟩
    refine ⟨_, rfl, ?_, ?_, ?_, ?_⟩
    · rw [Client.ack, mask]
      exact (four_getD _ _).mpr masked
    · rw [Client.ack, router]
      exact gateway
    · rw [Client.ack, dnsServer]
      exact server
    · rw [Client.ack, lease]
      exact leased

/-- An ACK with two DNS servers. -/
def twoServers : Bytes :=
  [opReply, 1, 6, 0] ++ be32 0 ++ zeros 8 ++ [10, 0, 0, 5] ++ zeros 216 ++ magicCookie ++
    [optMessageType, 1, msgAck, optDns, 8, 8, 8, 8, 8, 1, 1, 1, 1, optEnd]

/-- Of two DNS servers neither is taken. -/
theorem second_server_lost : ¬ ∀ (c : Client) (items : List Item) (payload : Bytes) (now : UInt64)
    (mac : Option Ipv4.Mac), AckWith c items payload → ∃ c', c.handle now mac payload = some c' ∧ Sets items c c' := by
  intro always
  have shaped : ∀ code data, .opt code data ∈ [Item.opt optMessageType [msgAck], .opt optDns [8, 8, 8, 8, 1, 1, 1, 1]] →
      Shaped code data := by
    intro code data member
    rcases List.mem_cons.mp member with same | member
    · cases same
      exact ⟨by decide, by decide, by decide, by decide, by decide, by decide, by decide, by decide⟩
    cases List.mem_singleton.mp member
    exact ⟨by decide, by decide, by decide, by decide, by decide, by decide, by decide, by decide⟩
  obtain ⟨c', handled, sets⟩ := always {} [.opt optMessageType [msgAck],
    .opt optDns [8, 8, 8, 8, 1, 1, 1, 1]] twoServers 0
    none ⟨by decide +kernel, ⟨twoServers.take 240, [], by decide +kernel, by decide +kernel⟩, ⟨shaped, by decide⟩, rfl⟩
  have unset : ((({} : Client).handle 0 none twoServers).map Client.dnsServer) = some 0 := by decide +kernel
  rw [handled, map_some, Option.some.injEq] at unset
  have first := sets.dnsServer
  rw [unset] at first
  exact absurd first (by decide)

end BarryOS.Net.Dhcp
