import BarryOS.Net.HttpTick
import Mathlib.Data.List.Count

/-!
# Redirects

What a fetch has used up: the scheme it is on, the redirects it has followed and the requests
it has made. Only `begin`, `followRedirect` and `sendRequest` touch that account.
-/

namespace BarryOS.Net.Http

open Lib Stack List

variable (P : Crypto.Primitives) (env : Env)

/-- A fetch that has used TLS for a request makes no later one without it. -/
def NoDowngrade (s : Stack) : Prop :=
  s.history.requests.Pairwise fun a b => a.hop.fetch = b.hop.fetch → a.tls = true → b.tls = true

/-- No fetch follows more redirects than it may. -/
def WithinBudget (s : Stack) : Prop := ∀ fetch, s.history.redirects.count fetch ≤ maxHops.toNat

/-! ## The account of a fetch -/

structure Account where
  tls : Bool
  hops : UInt8
  hop : Hop
  requests : List Request
  redirects : List Nat

def Stack.account (s : Stack) : Account :=
  ⟨s.http.useTls, s.http.hops, s.hop, s.history.requests, s.history.redirects⟩

variable {s t : Stack}

theorem Aside.account (h : Aside s t) : t.account = s.account := by
  unfold Stack.account
  rw [h.http, h.hop, h.requests, h.redirects]

/-- A hop of the same fetch, on the scheme its URL names. -/
theorem begin_account (url : Bytes) (s : Stack) : ∃ hop, hop.fetch = s.hop.fetch ∧
    (s.begin P env url).2.account = { s.account with tls := (scheme url).2, hop := hop } := by
  refine ⟨⟨s.hop.number + 1, s.hop.fetch, ((target url).map Target.host).getD [], env.tcp.now⟩, rfl, ?_⟩
  obtain ⟨c, phase, error, aside, ⟨rfl, -⟩ | ⟨t, -, rfl, -⟩⟩ := begin_began P env url s
  · exact aside.account
  · exact aside.account

/-! ## The invariant -/

/-- The account is in order. -/
structure Account.Sound (a : Account) : Prop where
  secure : a.requests.Pairwise fun a b => a.hop.fetch = b.hop.fetch → a.tls = true → b.tls = true
  known : ∀ r ∈ a.requests, r.hop.fetch ≤ a.hop.fetch
  kept : ∀ r ∈ a.requests, r.hop.fetch = a.hop.fetch → r.tls = true → a.tls = true
  followed : ∀ f ∈ a.redirects, f ≤ a.hop.fetch
  budget : ∀ f, a.redirects.count f ≤ maxHops.toNat
  spent : a.redirects.count a.hop.fetch ≤ a.hops.toNat

variable {a : Account}

theorem Account.Sound.requests (h : a.Sound) {new : List Request} (ours : ∀ r ∈ new, r.hop = a.hop ∧ r.tls = a.tls) :
    Account.Sound { a with requests := a.requests ++ new } where
  secure := by
    refine pairwise_append.mpr ⟨h.secure, pairwise_of_forall_mem_list ?_, ?_⟩
    · intro one inside other inside'
      rw [(ours one inside).2, (ours other inside').2]
      exact fun _ on => on
    · intro before earlier one inside
      rw [(ours one inside).1, (ours one inside).2]
      exact h.kept before earlier
  known := by
    intro one member
    rcases mem_append.mp member with earlier | inside
    · exact h.known one earlier
    · rw [(ours one inside).1]
  kept := by
    intro one member
    rcases mem_append.mp member with earlier | inside
    · exact h.kept one earlier
    rw [(ours one inside).2]
    exact fun _ on => on
  followed := h.followed
  budget := h.budget
  spent := h.spent

theorem hops_succ {hops : UInt8} (left : hops ≤ maxHops) : (hops + 1).toNat = hops.toNat + 1 := by
  have few : hops.toNat ≤ 5 := left
  exact Nat.mod_eq_of_lt (show hops.toNat + 1 < 256 by omega)

/-- A redirect that is refused is counted all the same. -/
theorem Account.Sound.refuse (h : a.Sound) (left : a.hops ≤ maxHops) : Account.Sound { a with hops := a.hops + 1 } :=
  { h with spent := (hops_succ left).symm ▸ Nat.le_succ_of_le h.spent }

theorem Account.Sound.redirect (h : a.Sound) {hop : Hop} {tls : Bool} (left : a.hops < maxHops)
    (fetch : hop.fetch = a.hop.fetch) (kept : a.tls = true → tls = true) : Account.Sound { a with
      tls := tls, hops := a.hops + 1, hop := hop, redirects := a.redirects ++ [a.hop.fetch] } where
  secure := h.secure
  known := fun r member => fetch ▸ h.known r member
  kept := fun r member same on => kept (h.kept r member (same.trans fetch) on)
  followed := by
    intro f member
    rw [fetch]
    rcases mem_append.mp member with earlier | last
    · exact h.followed f earlier
    · rw [mem_singleton.mp last]
  budget := by
    intro f
    rw [count_append, count_singleton]
    have spent := h.spent
    have budget := h.budget f
    have room : a.hops.toNat < maxHops.toNat := left
    split
    next same =>
      rw [beq_iff_eq] at same
      subst same
      omega
    · omega
  spent := by
    rw [fetch, count_append, count_singleton_self, hops_succ (Nat.le_of_lt left)]
    exact Nat.add_le_add_right h.spent 1

theorem Account.Sound.fresh (h : a.Sound) {hop : Hop} {tls : Bool}
    (fetch : hop.fetch = a.hop.fetch + 1) : Account.Sound { a with tls := tls, hops := 0, hop := hop } where
  secure := h.secure
  known := by
    intro r member
    have := h.known r member
    rw [fetch]
    omega
  kept := by
    intro r member same
    have := h.known r member
    rw [fetch] at same
    omega
  followed := by
    intro f member
    have := h.followed f member
    rw [fetch]
    omega
  budget := h.budget
  spent := by
    have absent : a.hop.fetch + 1 ∉ a.redirects := by
      intro member
      have := h.followed _ member
      omega
    rw [fetch, count_eq_zero.mpr absent]
    exact Nat.zero_le _

/-- A fetch whose redirects are used up has failed. -/
structure Sound (s : Stack) : Prop where
  account : s.account.Sound
  left : s.account.hops ≤ maxHops ∨ s.http.phase = .failed

/-! ## Steps -/

section

variable (h : Sound s)

include h

theorem Sound.start (url : Bytes) : Sound (s.start P env url).2 := by
  unfold Stack.start
  obtain ⟨hop, fetch, account⟩ := begin_account P env url
    { s with http := { s.http with hops := 0 }, hop := { s.hop with fetch := s.hop.fetch + 1 } }
  refine ⟨by rw [account]; exact h.account.fresh fetch, .inl ?_⟩
  rw [account]
  exact (by decide : (0 : UInt8) ≤ maxHops)

theorem Sound.followRedirect (left : s.account.hops ≤ maxHops) : Sound (s.followRedirect P env) := by
  unfold Stack.followRedirect
  dsimp only
  split
  · exact ⟨h.account.refuse left, .inr rfl⟩
  rename_i within
  split
  · exact ⟨h.account.refuse left, .inr rfl⟩
  rename_i url next
  obtain ⟨hop, fetch, account⟩ := begin_account P env url { s with
    http := { s.http with hops := s.http.hops + 1 }
    history := { s.history with redirects := s.history.redirects ++ [s.hop.fetch] } }
  have room : s.account.hops.toNat + 1 ≤ 5 := by
    rw [← hops_succ left]
    exact UInt8.not_lt.mp within
  refine ⟨?_, .inl ?_⟩
  · rw [account]
    refine h.account.redirect (show s.account.hops.toNat < 5 from room) fetch ?_
    intro on
    rw [show s.http.useTls = true from on] at next
    exact scheme_redirectUrl next
  · rw [account]
    exact UInt8.not_lt.mp within

theorem Sound.goes (goes : Goes s t) (left : s.account.hops ≤ maxHops) : Sound t := by
  obtain ⟨tls, hops, hop⟩ := goes.same
  obtain ⟨new, ours, requests⟩ := goes.requests
  have secured : ∀ r ∈ new, r.hop = s.hop ∧ r.tls = s.http.useTls := fun r inside => by
    obtain ⟨hop, call⟩ := ours r inside
    refine ⟨hop, ?_⟩
    unfold Request.tls
    rw [call, handing]
    cases s.http.useTls <;> rfl
  have account : t.account = { s.account with requests := s.account.requests ++ new } := by
    unfold Stack.account
    rw [tls, hops, hop, requests, goes.redirects]
  exact ⟨by rw [account]; exact h.account.requests secured, .inl (by rw [account]; exact left)⟩

theorem Sound.checkDeadline : Sound (s.checkDeadline env) := by
  unfold Stack.checkDeadline
  dsimp only
  split
  · exact h
  split
  · exact ⟨h.account, h.left⟩
  split
  · exact ⟨h.account, .inr rfl⟩
  · exact h

theorem Sound.tickHttp : Sound (s.tickHttp P env) := by
  obtain ⟨t, goes, ended, result⟩ := tickHttp_cases P env s
  have busy : s.http.phase ≠ .failed → s.account.hops ≤ maxHops := h.left.resolve_right
  have sound : Sound t := by
    by_cases failed : s.http.phase = .failed
    · rw [ended (by simp [Client.inProgress, failed])]
      exact h
    · exact h.goes goes (busy failed)
  rcases result with ⟨-, checked⟩ | ⟨phase, followed⟩ | ⟨-, returned⟩
  · rw [checked]
    exact sound.checkDeadline env
  · rw [followed]
    refine sound.followRedirect P env ?_
    rw [show t.account.hops = s.account.hops from goes.same.2.1]
    exact busy (by simp [phase])
  · rw [returned]
    exact sound

theorem Sound.step (c : Call) : Sound (s.step P c) := by
  unfold Stack.step
  split
  · exact h.start P c.env _
  next octets _ =>
    have aside := receive_aside P c.env octets s
    refine ⟨?_, ?_⟩
    · rw [aside.account]
      exact h.account
    · rw [aside.account, aside.http]
      exact h.left
  · exact Sound.tickHttp P c.env ⟨h.account, h.left⟩
  · exact ⟨h.account, h.left⟩
  · exact ⟨h.account, h.left⟩
  · exact ⟨h.account, h.left⟩

end

theorem Sound.boot (port : UInt16) : Sound (boot port) where
  account :=
    { secure := .nil
      known := fun _ member => by cases member
      kept := fun _ member => by cases member
      followed := fun _ member => by cases member
      budget := fun _ => Nat.zero_le _
      spent := Nat.zero_le _ }
  left := .inl (by decide : (0 : UInt8) ≤ maxHops)

/-- In every run no fetch goes from TLS back to plain HTTP, and none follows more than so many redirects. -/
theorem redirects_bounded_and_secure (port : UInt16) (calls : List Call) :
    NoDowngrade (run (step P) (.boot port) calls) ∧ WithinBudget (run (step P) (.boot port) calls) := by
  have sound := run_invariant Sound (fun s c h => h.step P c) (Sound.boot port) calls
  exact ⟨sound.account.secure, sound.account.budget⟩

end BarryOS.Net.Http
