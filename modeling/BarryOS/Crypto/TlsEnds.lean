import BarryOS.Crypto.TlsTransport
import BarryOS.Net.TcpFin

/-!
# A handshake ends with its transport

TLS has no deadline of its own. While it is connecting it looks at the lookup and at TCP, and while
it is handshaking at TCP alone: when either has come to an end, so does the handshake, one tick later
at the latest.
-/

namespace BarryOS.Crypto

open Lib Net Tls

/-- The connection is over: TCP has given it up or was reset, or the server has closed its side. -/
def Ended (tcp : Tcp.Tcb) : Prop := tcp.state = .failed ∨ tcp.state = .established ∧ tcp.peerClosed = true

instance (tcp : Tcp.Tcb) : Decidable (Ended tcp) := inferInstanceAs (Decidable (_ ∨ _))

/-- Nothing more comes from the server. -/
def Dead (tcp : Tcp.Tcb) : Prop := tcp.state = .failed ∨ tcp.state = .closed ∨ tcp.peerClosed = true

section

variable {e : Tcp.Env} {tcp a b : Tcp.Tcb}

theorem Ended.dead (h : Ended tcp) : Dead tcp := h.imp_right fun closed => .inr closed.2

theorem Ended.tick (h : Ended tcp) : Ended (tcp.tick e) := by
  rcases Tcp.Tcb.tick_state e tcp with same | failed
  · rcases h with gone | ⟨opened, closed⟩
    · exact .inl (same.trans gone)
    · exact .inr ⟨same.trans opened, (Tcp.Tcb.tick_peerClosed e tcp).trans closed⟩
  · exact .inl failed

theorem Dead.of_kept (h : Dead a) (state : b.state = a.state) (closed : b.peerClosed = a.peerClosed) : Dead b := by
  unfold Dead
  rwa [state, closed]

/-- No call of TCP but `connect` brings a connection back. -/
theorem Uses.dead (uses : Uses e a b) (h : Dead a) : Dead b := by
  induction uses with
  | refl tcp => exact h
  | trans _ _ first second => exact second (first h)
  | tick tcp =>
    rcases Tcp.Tcb.tick_state e tcp with same | failed
    · exact h.of_kept same (Tcp.Tcb.tick_peerClosed e tcp)
    · exact .inl failed
  | send tcp data => exact h.of_kept (Tcp.Tcb.send_state e data tcp) (Tcp.Tcb.send_peerClosed e data tcp)
  | close tcp =>
    have kept := Tcp.Tcb.close_peerClosed e tcp
    rcases Tcp.Tcb.close_state e tcp with same | ⟨opened, -⟩
    · exact h.of_kept same kept
    · refine .inr (.inr (kept.trans ?_))
      simpa [Dead, opened] using h
  | reset tcp => exact .inr (.inl rfl)
  | release tcp n => exact h.of_kept (Tcp.Tcb.rxRelease_state e n tcp) (Tcp.Tcb.rxRelease_peerClosed e n tcp)

end

variable (P : Primitives) (env : Env)

namespace Tls

/-- What does not go out fails the connection. -/
def Quits (f : Tls → Bool × Tls) : Prop := ∀ s, (f s).1 = false → (f s).2.phase = .failed

theorem andThen_quits {f g : Tls → Bool × Tls} (first : Quits f) (second : Quits g) : Quits (andThen f g) := by
  intro s
  dsimp only [andThen]
  split
  · exact second _
  · exact first s

theorem sendHandshake12_quits (msg : Bytes) : Quits (sendHandshake12 P env msg) := by
  intro s
  dsimp only [sendHandshake12]
  split
  next sent => exact fun unsent => nomatch sent.symm.trans unsent
  · exact fun _ => rfl

theorem sendFlight12_quits : Quits (sendFlight12 P env) := by
  refine andThen_quits ?_ (andThen_quits ?_ (andThen_quits ?_ ?_))
  all_goals intro s
  · unfold sendEmptyCertificate12
    split
    · exact sendHandshake12_quits P env _ s
    · exact nofun
  · dsimp only [sendKeyExchange12]
    split
    · exact fun _ => rfl
    · exact sendHandshake12_quits P env _ s
  · dsimp only [sendChangeCipherSpec12]
    split
    · exact nofun
    · exact fun _ => rfl
  · dsimp only [sendFinished12]
    split
    · exact nofun
    · exact fun _ => rfl

end Tls

namespace Session

variable {σ : Session}

/-- While the lookup and TCP are under way a tick waits, greets the server, or gives up. -/
theorem tick_connecting (connecting : σ.tls.phase = .connecting) :
    (σ.tick P env).tls.phase = .connecting ∨ (σ.tick P env).tls.phase = .handshaking ∨
      (σ.tick P env).tls.phase = .failed := by
  unfold tick
  rw [connecting]
  dsimp only [tickConnecting]
  split
  · exact .inr (sendClientHello_phase P env _)
  split
  · exact .inr (.inr rfl)
  · rcases tickDns_cases env (σ.tls.tickTcp env) with ⟨tcp, waiting⟩ | failed
    · rw [waiting]
      exact .inl connecting
    · rw [failed]
      exact .inr (.inr rfl)

/-- If one of them has come to an end it does not wait. -/
theorem tick_hurried (connecting : σ.tls.phase = .connecting) (settled : env.dns = .failed ∨
    env.dns = .pending ∧ Ended σ.tls.tcp) : (σ.tick P env).tls.phase ≠ .connecting := by
  unfold tick
  rw [connecting]
  dsimp only [tickConnecting]
  rcases settled with failed | ⟨pending, ended⟩
  · have looked : (σ.tls.tickTcp env).tickDns env = (σ.tls.tickTcp env).fail 1 := by
      unfold tickDns
      rw [failed]
    rw [looked]
    -- `fail` has reset TCP
    rw [if_neg (show ((σ.tls.tickTcp env).fail 1).tcp.state ≠ .established from Tcp.State.noConfusion)]
    split <;> exact nofun
  have looked : (σ.tls.tickTcp env).tickDns env = σ.tls.tickTcp env := by
    unfold tickDns
    rw [pending]
  rw [looked]
  split
  · rcases sendClientHello_phase P env (σ.tls.tickTcp env) with on | failed
    · exact on.trans_ne nofun
    · exact failed.trans_ne nofun
  next closed =>
    rcases ended.tick (e := env.tcp) with failed | ⟨opened, -⟩
    · have given : (σ.tls.tickTcp env).tcp.state = .failed := failed
      rw [if_pos given]
      exact nofun
    · exact absurd opened closed

theorem checkTransport_dead {s : Tls} (dead : Dead s.tcp) : s.checkTransport.phase ≠ .handshaking := by
  unfold checkTransport
  split
  · exact nofun
  next alive =>
  split
  · exact nofun
  next going =>
  intro handshaking
  apply going
  have gone : s.tcp.state = .closed ∨ s.tcp.peerClosed = true := dead.resolve_left alive
  simpa [Tls.established, handshaking] using gone

/-- A handshake over a connection that has ended is over. -/
theorem tick_dead (handshaking : σ.tls.phase = .handshaking) (ended : Ended σ.tls.tcp) :
    (σ.tick P env).tls.phase ≠ .handshaking := by
  have drained : Dead (drainTcp P env { σ with tls := σ.tls.tickTcp env }).tls.tcp :=
    (drainTcp_follows P env (follows_uses P env) (σ := { σ with tls := σ.tls.tickTcp env })
      (handshaking.trans_ne nofun) (handshaking.trans_ne nofun)).2.2.dead ended.tick.dead
  unfold tick
  rw [handshaking]
  dsimp only [afterDrain]
  split
  · have flown := (flies_uses P env).sendFlight12 P env
      { (drainTcp P env { σ with tls := σ.tls.tickTcp env }).tls with step12 := 2 }
    split
    · exact checkTransport_dead (flown.dead drained)
    next unsent =>
      rw [sendFlight12_quits P env _ (by simpa using unsent)]
      exact nofun
  · exact checkTransport_dead drained

end Session

end BarryOS.Crypto
