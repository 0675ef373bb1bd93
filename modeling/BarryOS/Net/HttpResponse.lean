import BarryOS.Net.HttpAddress
import BarryOS.Net.HttpFields

/-!
# Reading a response

For every head in good form, however it is split over ticks, the client should know the status, where
the body starts, its length and the place a Location names; it should follow a Location for the codes
3xx only, and to the address that the Location means beside the one just asked for (`Understood`). That
is so exactly for the heads of `Plain`.

On any octets whatever, the reading stays within the buffer, and its arithmetic does not overflow
exactly if what stands for the status and for the lengths is in range (`InRange`).
-/

namespace BarryOS.Net.Http

open Lib List

/-! ## Where a Location leads -/

/-- A colon comes before any slash, question mark or number sign: the name of a scheme. -/
def absolute (loc : Bytes) : Bool := loc.find? (fun b => b = 0x3A || endsAuthority b) = some 0x3A

def schemeOf (tls : Bool) : Bytes := if tls then https else http

/-- The text that `begin` reads as this host and this port. -/
def authorityOf (tls : Bool) (host : Bytes) (port : UInt16) : Bytes :=
  if hostPort host (defaultPort tls) = (host, port) then host else host ++ 0x3A :: ascii (toString port.toNat)

/-- What a Location means beside the scheme, the host and the port just asked for. -/
def resolve (tls : Bool) (host : Bytes) (port : UInt16) (loc : Bytes) : Bytes :=
  if absolute loc then loc
  else schemeOf tls ++ if (ascii "//").isPrefixOf loc then loc.drop 2 else authorityOf tls host port ++ pathOf loc

/-- A URL in full; or a path for a host at its default port, and not too long. -/
def Followable (tls : Bool) (host : Bytes) (port : UInt16) (loc : Bytes) : Prop :=
  https.isPrefixOf loc = true ∨ http.isPrefixOf loc = true ∨
    absolute loc = false ∧ (ascii "//").isPrefixOf loc = false ∧ hostPort host (defaultPort tls) = (host, port) ∧
      (schemeOf tls).length + host.length + (pathOf loc).length ≤ 384

theorem absolute_of_front {loc : Bytes} (front : https.isPrefixOf loc = true ∨ http.isPrefixOf loc = true) :
    absolute loc = true := by
  obtain ⟨rest, rfl⟩ | ⟨rest, rfl⟩ := front.imp isPrefixOf_iff_prefix.mp isPrefixOf_iff_prefix.mp
  · rfl
  · rfl

theorem schemeOf_ascii (tls : Bool) : ∀ b ∈ schemeOf tls, b < 0x80 := by
  have small : ∀ b ∈ schemeOf tls, decide (b < 0x80) = true := by
    apply all_eq_true.mp
    cases tls <;> rfl
  exact fun b inside => of_decide_eq_true (small b inside)

theorem mem_pathOf {b : UInt8} {tail : Bytes} (inside : b ∈ pathOf tail) : b = 0x2F ∨ b ∈ tail := by
  unfold pathOf at inside
  split at inside
  · exact .inr inside
  · exact mem_cons.mp inside

theorem utf8OrEmpty_ascii {l : Bytes} (text : ∀ b ∈ l, b < 0x80) : utf8OrEmpty l = l := by
  have valid := validUtf8_append_ascii [] text
  exact if_pos valid

section Redirect

variable {tls : Bool} {host loc : Bytes} {port : UInt16}

/-- What `follow_redirect` makes of a path. -/
theorem redirectUrl_path (text : ∀ b ∈ loc, b < 0x80) (valid : validUtf8 host = true)
    (other : ¬ https.isPrefixOf loc = true) (other' : ¬ http.isPrefixOf loc = true) :
    redirectUrl loc host tls = some (utf8OrEmpty ((schemeOf tls ++ (host ++ pathOf loc)).take 384)) := by
  have whole := utf8OrEmpty_ascii text
  have path : (if loc.head? = some 0x2F then [] else [0x2F]) ++ loc = pathOf loc := by
    unfold pathOf
    split <;> rfl
  unfold redirectUrl
  dsimp only
  rw [whole, if_neg other, if_neg other', show utf8OrEmpty host = host from if_pos valid, append_assoc, append_assoc,
    path]
  rfl

theorem redirectUrl_absolute (text : ∀ b ∈ loc, b < 0x80) (short : loc.length ≤ 256)
    (front : https.isPrefixOf loc = true ∨ http.isPrefixOf loc = true) :
    ∀ url, redirectUrl loc host tls = some url → url = loc := by
  have whole := utf8OrEmpty_ascii text
  intro url next
  unfold redirectUrl at next
  dsimp only at next
  rw [whole, take_of_length_le (by omega), whole] at next
  split at next
  · exact (Option.some.inj next).symm
  rename_i other
  rw [if_pos (front.resolve_left other)] at next
  exact (Option.some.inj (Option.ite_none_left_eq_some.mp next).2).symm

theorem resolve_ne_nil : resolve tls host port loc ≠ [] := by
  unfold resolve
  split
  next whole =>
    rintro rfl
    cases whole
  · cases tls <;> exact cons_ne_nil _ _

/-- A redirect leads where its Location means, exactly if that is easy to say. -/
theorem redirectUrl_iff (text : ∀ b ∈ loc, b < 0x80) (short : loc.length ≤ 256) (valid : validUtf8 host = true) :
    (∀ url, redirectUrl loc host tls = some url → url = resolve tls host port loc) ↔ Followable tls host port loc := by
  by_cases front : https.isPrefixOf loc = true ∨ http.isPrefixOf loc = true
  · refine ⟨fun _ => front.elim .inl fun front => .inr (.inl front), fun _ url next => ?_⟩
    rw [redirectUrl_absolute text short front url next, resolve, if_pos (absolute_of_front front)]
  obtain ⟨other, other'⟩ := not_or.mp front
  unfold Followable
  rw [redirectUrl_path text valid other other']
  rw [or_iff_right other, or_iff_right other']
  simp only [Option.some.injEq, forall_eq']
  obtain ⟨full, fullEq⟩ : ∃ full, full = schemeOf tls ++ (host ++ pathOf loc) := ⟨_, rfl⟩
  have lengths : full.length = (schemeOf tls).length + host.length + (pathOf loc).length := by
    rw [fullEq, length_append, length_append]
    omega
  have scheme8 : 0 < (schemeOf tls).length ∧ (schemeOf tls).length ≤ 8 := by
    cases tls <;> decide
  rw [← fullEq]
  constructor
  · intro leads
    have shown : full.take 384 = resolve tls host port loc := by
      unfold utf8OrEmpty at leads
      split at leads
      · exact leads
      · exact absurd leads.symm resolve_ne_nil
    have cut := congrArg List.length shown
    rw [length_take, lengths] at cut
    have relative : absolute loc = false := by
      by_contra whole
      rw [Bool.not_eq_false] at whole
      rw [resolve, if_pos whole] at shown
      have front : schemeOf tls <+: loc := by
        rw [← shown, prefix_take_iff, fullEq]
        exact ⟨prefix_append _ _, by omega⟩
      have either : https.isPrefixOf loc = true ∨ http.isPrefixOf loc = true := by
        cases tls with
        | true => exact .inl <| isPrefixOf_iff_prefix.mpr front
        | false => exact .inr <| isPrefixOf_iff_prefix.mpr front
      exact either.elim other other'
    rw [resolve, relative, if_neg Bool.false_ne_true, length_append] at cut
    by_cases slashes : (ascii "//").isPrefixOf loc = true
    · -- The text is longer than what two slashes mean, or cut, and then longer still.
      obtain ⟨rest, same⟩ := isPrefixOf_iff_prefix.mp slashes
      have path : pathOf loc = loc := by
        rw [← same]
        rfl
      have two := congrArg List.length same
      rw [length_append, show (ascii "//").length = 2 from rfl] at two
      rw [if_pos slashes, path, length_drop] at cut
      omega
    · rw [if_neg slashes, length_append] at cut
      refine ⟨relative, eq_false_of_ne_true slashes, ?_⟩
      unfold authorityOf at cut
      split at cut
      next same => exact ⟨same, by omega⟩
      · rw [length_append, length_cons] at cut
        omega
  · rintro ⟨relative, path, port', fits⟩
    have whole : validUtf8 full = true := by
      rw [fullEq, validUtf8_ascii_append (schemeOf_ascii tls), validUtf8_append_ascii host, valid]
      intro b inside
      rcases mem_pathOf inside with rfl | inside
      · decide
      · exact text b inside
    rw [take_of_length_le (by omega), utf8OrEmpty, if_pos whole, resolve, relative, path, authorityOf, if_pos port',
      fullEq]
    rfl

end Redirect

/-! ## Heads -/

/-- `tick` follows a redirect. -/
def Client.follows (c : Client) : Bool := c.redirect && !c.location.isEmpty

/-- Nothing of a response has been read, from this host. -/
structure Client.Awaits (c : Client) (host : Str) : Prop where
  target : c.target = host.bytes
  unread : c.headersParsed = false
  declared : c.bodyDeclared = 0
  redirect : c.redirect = false
  location : c.location = []

/-- What the client should know when it has read a head. -/
structure Understood (head : Head) (c : Client) : Prop where
  parsed : c.headersParsed = true
  status : c.status.toNat = head.status
  body : c.bodyOffset.toNat = head.octets.length
  length : c.bodyDeclared.toNat = head.contentLength.getD 0
  location : c.location = head.location.getD []
  noticed : c.location ≠ [] → c.redirect = true
  only : c.follows = true → 300 ≤ head.status ∧ head.status < 400
  target : c.follows = true →
    ∀ url, redirectUrl c.location c.target c.useTls = some url → url = resolve c.useTls c.target c.port c.location

/-- Where the client does. -/
structure Plain (head : Head) (c : Client) : Prop where
  length : head.LengthReadable
  location : head.LocationReadable
  only : ∀ loc, head.location = some loc → loc ≠ [] → 300 ≤ head.status ∧ head.status < 400
  target : ∀ loc, head.location = some loc → loc ≠ [] → Followable c.useTls c.target c.port loc

theorem Head.status_lt (head : Head) : head.status < 1000 := by
  unfold Head.status
  omega

theorem Head.location_ascii {head : Head} {loc : Bytes} (found : head.location = some loc) : ∀ b ∈ loc, b < 0x80 := by
  intro b inside
  have small := (head.uri loc (mem_of_head? found) b inside).2
  exact UInt8.lt_trans small (by decide)

theorem Head.walked_short (head : Head) {c : Client} (fresh : c.location = []) :
    (head.walked c).location.length ≤ 256 := by
  refine foldlRecOn (motive := fun h : Headers => h.location.length ≤ 256) _ _
    (by rw [fresh]; exact Nat.zero_le _) fun h short f _ => ?_
  unfold Headers.line
  split
  · exact short
  split
  · exact length_take_le _ _
  · exact short

theorem understood_iff {head : Head} {c : Client} {host : Str} (awaits : c.Awaits host)
    (fits : head.octets.length ≤ headerScan) :
    Understood head (head.read c) ↔ Plain head c := by
  have length := head.walked_declared awaits.declared
  obtain ⟨location, noticed⟩ := head.walked_location awaits.location
  have short := head.walked_short awaits.location
  have follows : ∀ loc, (head.walked c).location = loc → loc ≠ [] → (head.read c).follows = true := by
    intro loc same some'
    have flag := noticed (by rw [same]; exact some')
    simp [Client.follows, Head.read, flag, same, some']
  have followed : (head.read c).follows = true → (head.walked c).location ≠ [] := by
    intro yes
    simp only [Client.follows, Bool.and_eq_true, Bool.not_eq_true', isEmpty_eq_false_iff] at yes
    exact yes.2
  have leads : ∀ loc, (head.walked c).location = loc → head.location = some loc →
      ((∀ url, redirectUrl loc c.target c.useTls = some url → url = resolve c.useTls c.target c.port loc) ↔
        Followable c.useTls c.target c.port loc) := by
    intro loc same found
    rw [same] at short
    refine redirectUrl_iff (Head.location_ascii found) short ?_
    rw [awaits.target]
    exact host.utf8
  constructor
  · intro h
    have kept : (head.walked c).location = head.location.getD [] := h.location
    refine ⟨length.mp h.length, location.mp kept, fun loc found some' => ?_, fun loc found some' => ?_⟩
    · rw [found] at kept
      exact h.only (follows loc kept some')
    · rw [found] at kept
      have target := h.target (follows loc kept some')
      rw [show (head.read c).location = loc from kept] at target
      exact (leads loc kept found).mp target
  · intro h
    have kept := location.mpr h.location
    have named : (head.read c).follows = true →
        ∃ loc, head.location = some loc ∧ loc ≠ [] ∧ (head.walked c).location = loc := by
      intro yes
      have some' := followed yes
      cases found : head.location with
      | none =>
        rw [kept, found] at some'
        exact absurd rfl some'
      | some loc =>
        rw [found] at kept
        rw [kept] at some'
        exact ⟨loc, rfl, some', kept⟩
    refine ⟨rfl, ?_, ?_, length.mpr h.length, kept, noticed, fun yes => ?_, fun yes => ?_⟩
    · have small := head.status_lt
      show (UInt16.ofNat head.status).toNat = _
      rw [UInt16.toNat_ofNat', Nat.mod_eq_of_lt (by omega)]
    · have small : headerScan = 8192 := rfl
      show (UInt32.ofNat head.octets.length).toNat = _
      rw [UInt32.toNat_ofNat', Nat.mod_eq_of_lt (by omega)]
    · obtain ⟨loc, found, some', -⟩ := named yes
      exact h.only loc found some'
    · obtain ⟨loc, found, some', same⟩ := named yes
      rw [show (head.read c).location = loc from same]
      exact (leads loc same found).mpr (h.target loc found some')

end BarryOS.Net.Http
