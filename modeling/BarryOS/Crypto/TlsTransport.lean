import BarryOS.Crypto.TlsMoves

/-!
# What TLS does to the transport

Everything between two records is some sequence of the calls below. Only a tick that finds a
name resolved opens a connection.
-/

namespace BarryOS.Crypto

open Lib Net Tls

/-- Some calls of TCP, none of them `connect`. -/
inductive Uses (env : Tcp.Env) : Tcp.Tcb → Tcp.Tcb → Prop where
  | refl (tcp : Tcp.Tcb) : Uses env tcp tcp
  | trans {a b c : Tcp.Tcb} (first : Uses env a b) (second : Uses env b c) : Uses env a c
  | tick (tcp : Tcp.Tcb) : Uses env tcp (tcp.tick env)
  | send (tcp : Tcp.Tcb) (data : Bytes) : Uses env tcp (tcp.send env data).2
  | close (tcp : Tcp.Tcb) : Uses env tcp (tcp.close env)
  | reset (tcp : Tcp.Tcb) : Uses env tcp tcp.reset
  | release (tcp : Tcp.Tcb) (n : Nat) : Uses env tcp (tcp.rxRelease env n)

variable (P : Primitives) (env : Env)

namespace Tls

/-! ## Sending -/

theorem recordOut_tcp (kind : UInt8) (body : Bytes) (s : Tls) : (s.recordOut P kind body).2.tcp = s.tcp := by
  rcases recordOut_cases P kind body s with ⟨-, -, out⟩ | ⟨-, -, out⟩ | ⟨-, -, out⟩
  · rw [out]
  · rw [out]
    rfl
  · rw [out]
    rfl

theorem sendRecord_uses (kind : UInt8) (body : Bytes) (s : Tls) :
    Uses env.tcp s.tcp (s.sendRecord P env kind body).2.tcp := by
  unfold sendRecord handOver
  have same := recordOut_tcp P kind body s
  split
  · rw [same]
    exact .refl _
  rw [same]
  exact .send _ _

theorem send_uses (data : Bytes) (s : Tls) :
    Uses env.tcp s.tcp (s.send P env data).2.tcp ∧ (s.send P env data).2.phase = s.phase := by
  unfold send
  split
  · exact ⟨.refl _, rfl⟩
  obtain ⟨_, _, _, frame, -⟩ := sendRecord_frame P env ctApplicationData data s
  exact ⟨sendRecord_uses P env ctApplicationData data s, by rw [frame]⟩

theorem fail_uses {tcp : Tcp.Tcb} (code : UInt8) (s : Tls) (h : Uses env.tcp tcp s.tcp) :
    Uses env.tcp tcp (s.fail code).tcp :=
  h.trans (.reset _)

theorem sendClientHello_uses (s : Tls) : Uses env.tcp s.tcp (s.sendClientHello P env).tcp := by
  have sent : ∀ (t : Tls) (msg : Bytes), t.tcp = s.tcp →
      Uses env.tcp s.tcp (t.sendRecord P env ctHandshake msg).2.tcp := by
    intro t msg same
    rw [← same]
    exact sendRecord_uses P env ctHandshake msg t
  unfold sendClientHello
  dsimp only
  split
  · apply sent
    rfl
  apply fail_uses
  apply sent
  rfl

theorem sendFinished_uses (s : Tls) : Uses env.tcp s.tcp (s.sendFinished P env).2.tcp := by
  have sent := sendRecord_uses P env ctHandshake (s.clientFinished P) (s.transcriptUpdate (s.clientFinished P))
  unfold sendFinished
  dsimp only
  split
  · exact fail_uses env 6 _ sent
  · exact sent

theorem flies_uses : Flies P env fun s t => Uses env.tcp s.tcp t.tcp where
  refl _ := .refl _
  trans := .trans
  fail _ _ := .reset _
  note _ _ := .refl _
  on _ := .refl _
  sent _ := sendRecord_uses P env _ _ _
  unsent kind body code s := fail_uses env code _ (sendRecord_uses P env kind body s)

/-! ## Opening a connection -/

theorem start_literal {host : Bytes} {ip : Ip} (literal : parseIp host = some ip) (port : UInt16) (s : Tls) :
    (s.start env host port).1 = true ∧ (s.start env host port).2.phase = .connecting ∧
      (s.start env host port).2.tcp = (s.tcp.reset.connect env.tcp ip port).2 := by
  unfold start
  rw [literal]
  exact ⟨rfl, rfl, rfl⟩

theorem start_named {host : Bytes} (named : parseIp host = none) (port : UInt16) (s : Tls) :
    (s.start env host port).2.tcp = s.tcp.reset ∧
      ((s.start env host port).1 = true → env.dnsServer = true ∧ env.dnsStarts = true) := by
  unfold start
  rw [named]
  dsimp only
  split
  · exact ⟨rfl, nofun⟩
  rename_i server
  split
  · exact ⟨rfl, nofun⟩
  next starts => exact ⟨rfl, fun _ => ⟨by simpa using server, by simpa using starts⟩⟩

/-! ## Messages -/

section

variable (msg body : Bytes) (s : Tls)

theorem uses_choice {c : Prop} [Decidable c] {tcp : Tcp.Tcb} {a b : Bool × Tls} (yes : Uses env.tcp tcp a.2.tcp)
    (no : Uses env.tcp tcp b.2.tcp) : Uses env.tcp tcp (if c then a else b).2.tcp := by
  split
  · exact yes
  · exact no

theorem handleCertificate_uses (withContext : Bool) :
    Uses env.tcp s.tcp (s.handleCertificate body withContext).2.tcp := by
  unfold handleCertificate
  split
  · exact .reset _
  · exact .refl _

theorem handleHandshake13_uses : Uses env.tcp s.tcp (s.handleHandshake13 P env msg).2.tcp := by
  have hello : Uses env.tcp s.tcp ((s.transcriptUpdate msg).handleServerHello P (msg.drop 4)).2.tcp := by
    unfold handleServerHello
    split
    · exact .reset _
    · exact uses_choice env (.reset _) (.refl _)
  have checked : Uses env.tcp s.tcp (s.handleCertificateVerify P (msg.drop 4)).2.tcp :=
    uses_choice env (.reset _) (uses_choice env (.refl _) (.reset _))
  have finished : Uses env.tcp s.tcp (s.handleFinished P env msg).2.tcp :=
    uses_choice env (.reset _) <| uses_choice env (.reset _) <| uses_choice env (.reset _) <|
      sendFinished_uses P env ((s.transcriptUpdate msg).installApplicationKeys P)
  exact uses_choice env hello <| uses_choice env
    (handleCertificate_uses env (msg.drop 4) (s.transcriptUpdate msg) true) <|
    uses_choice env (uses_choice env checked checked) <| uses_choice env finished (.refl _)

theorem handleHandshake12_uses : Uses env.tcp s.tcp (s.handleHandshake12 P env msg).2.tcp := by
  have read := handleCertificate_uses env (msg.drop 4) (s.transcriptUpdate msg) false
  have exchanged : Uses env.tcp s.tcp ((s.transcriptUpdate msg).serverKeyExchange12 P env (msg.drop 4)).2.tcp := by
    unfold serverKeyExchange12
    split
    · exact .reset _
    · exact uses_choice env (.refl _) (.reset _)
  have finished : Uses env.tcp s.tcp (s.serverFinished12 P msg).2.tcp :=
    uses_choice env (.reset _) (uses_choice env (.reset _) (.refl _))
  exact uses_choice env (uses_choice env (.refl _) (.reset _)) <| uses_choice env (uses_choice env read read) <|
    uses_choice env exchanged <| uses_choice env (.refl _) <|
    uses_choice env (uses_choice env (.refl _) (.reset _)) <| uses_choice env finished (.refl _)

theorem handleMessage_uses : Uses env.tcp s.tcp (s.handleMessage P env msg).2.tcp :=
  uses_choice env (handleHandshake12_uses P env msg s) (handleHandshake13_uses P env msg s)

end

end Tls

namespace Session

theorem dispatch_uses (msg : Bytes) (σ : Session) : Uses env.tcp σ.tls.tcp (σ.dispatch P env msg).2.tls.tcp := by
  have same : (σ.tls.decideVersion msg).tcp = σ.tls.tcp := by
    unfold decideVersion
    split <;> rfl
  have handled := handleMessage_uses P env msg (σ.tls.decideVersion msg)
  rw [same] at handled
  exact handled

/-! ## Ticks -/

theorem follows_uses : Follows P env fun s t => Uses env.tcp s.tcp t.tcp where
  toFlies := flies_uses P env
  message σ msg _ := dispatch_uses P env msg σ
  theirs _ _ _ _ _ _ := .refl _
  ended _ _ := .refl _
  reset _ _ := .reset _
  tick _ := .tick _
  release _ _ := .release _ _

/-- A tick opens a connection only when it finds a name resolved. -/
theorem tick_uses (σ : Session) (unresolved : σ.tls.phase = .connecting → ∀ ip, env.dns ≠ .resolved (some ip)) :
    Uses env.tcp σ.tls.tcp (σ.tick P env).tls.tcp :=
  tick_follows P env (follows_uses P env) (fun s _ => sendClientHello_uses P env { s with phase := .handshaking })
    σ unresolved

/-- Then it opens one to the address that was found, and that is all. -/
theorem tick_connects {σ : Session} {ip : Ip} (connecting : σ.tls.phase = .connecting)
    (resolved : env.dns = .resolved (some ip)) :
    (σ.tick P env).tls = { σ.tls with tcp := ((σ.tls.tcp.tick env.tcp).connect env.tcp ip σ.tls.port).2 } := by
  have looked : (σ.tls.tickTcp env).tickDns env =
      { σ.tls with tcp := ((σ.tls.tcp.tick env.tcp).connect env.tcp ip σ.tls.port).2 } := by
    unfold tickDns
    rw [resolved]
    rfl
  unfold tick
  rw [connecting]
  dsimp only [tickConnecting]
  rw [looked]
  rfl

/-- The ClientHello leaves the client handshaking, or failed. -/
theorem sendClientHello_phase (s : Tls) :
    (({ s with phase := .handshaking }).sendClientHello P env).phase = .handshaking ∨
      (({ s with phase := .handshaking }).sendClientHello P env).phase = .failed := by
  unfold sendClientHello
  dsimp only
  split
  · obtain ⟨_, _, _, frame, -⟩ := sendRecord_frame P env ctHandshake _ _
    rw [frame]
    exact .inl rfl
  · exact .inr rfl

section

variable {p : Phase} (early : p = .idle ∨ p = .connecting)

include early

/-- There is no way back to a phase before the handshake. -/
theorem follows_past : Follows P env fun s t => s.phase ≠ p → t.phase ≠ p := by
  have failed : Phase.failed ≠ p := by rcases early with rfl | rfl <;> exact nofun
  have closed : Phase.closed ≠ p := by rcases early with rfl | rfl <;> exact nofun
  exact
    { refl := fun _ => id
      trans := fun first second => second ∘ first
      fail := fun _ _ _ => failed
      note := fun _ _ => id
      on := fun _ => id
      sent := fun {kind body s} _ past => by
        rcases (sendRecord_flown P env kind body s).phase with same | lost
        · exact same.trans_ne past
        · exact lost.trans_ne failed
      unsent := fun _ _ _ _ _ => failed
      message := fun σ msg _ past => by
        rcases (handleMessage_effect P env msg (σ.tls.decideVersion msg)).phase P env with same | done | ⟨-, lost, -⟩
        · exact (same.trans (decideVersion_phase msg σ.tls)).trans_ne past
        · rcases early with rfl | rfl <;> exact done.trans_ne nofun
        · exact lost.trans_ne failed
      theirs := fun _ _ _ _ _ _ => id
      ended := fun _ _ _ => closed
      reset := fun _ _ _ => closed
      tick := fun _ => id
      release := fun _ _ => id }

theorem tick_past {σ : Session} (busy : σ.tls.phase ≠ .connecting) (past : σ.tls.phase ≠ p) :
    (σ.tick P env).tls.phase ≠ p := by
  refine tick_follows P env (follows_past P env early) (fun s _ _ => ?_) σ
    (fun connecting => absurd connecting busy) past
  rcases sendClientHello_phase P env s with on | failed
  · rcases early with rfl | rfl <;> exact on.trans_ne nofun
  · rcases early with rfl | rfl <;> exact failed.trans_ne nofun

end

theorem tick_busy {σ : Session} (busy : σ.tls.phase ≠ .connecting) : (σ.tick P env).tls.phase ≠ .connecting :=
  tick_past P env (.inr rfl) busy busy

end Session

end BarryOS.Crypto
