import BarryOS.Crypto.TlsTransport
import BarryOS.Net.TcpTransmit

/-!
# What is queued on a connection

Only `send` adds to the queue's payloads and only `connect` starts over. `send` queues its data
before it hands the segment to `ipv4::send`, so that the answer `false` says nothing about the
queue unless the frame went out.
-/

namespace BarryOS.Net.Tcp

open Lib

variable (env : Env)

namespace Tcb

theorem offTimer_stream : OffTimer stream := ⟨fun _ _ _ _ => rfl, fun _ _ => rfl, fun _ => rfl⟩

variable (s : Tcb)

theorem sendAck_stream : (s.sendAck env).stream = s.stream := offTimer_stream.offWire.sendAck env s

theorem rxRelease_stream (n : Nat) (s : Tcb) : (s.rxRelease env n).stream = s.stream :=
  offTimer_stream.offWire.rxRelease (fun _ _ => rfl) env n s

theorem close_stream : (s.close env).stream = s.stream := by
  unfold close
  split <;> rfl

theorem tick_stream : (s.tick env).stream = s.stream := offTimer_stream.tick env s

/-! ## Segments -/

theorem takePayload_stream (g : Segment) (s : Tcb) : (s.takePayload g).2.stream = s.stream :=
  OffRing.takePayload (fun _ _ _ _ _ => rfl) g s

theorem onData_stream (g : Segment) (s : Tcb) : (s.onData env g).stream = s.stream := by
  have taken := takePayload_stream g s
  unfold onData
  dsimp only
  split
  · unfold takeFin
    dsimp only
    split <;> exact (sendAck_stream env _).trans taken
  have acked : ((s.takePayload g).2.ackPayload env (s.takePayload g).1 g).stream = s.stream :=
    (offTimer_stream.offWire.ackPayload env _ g _).trans taken
  unfold noteFinAcked
  split <;> exact acked

theorem handle_stream (src : Ip) (body : Bytes) (s : Tcb) : (s.handle env src body).stream = s.stream := by
  unfold handle
  split
  · rfl
  rename_i g _
  have acked : (s.onAck g).stream = s.stream := by
    unfold onAck
    split <;> rfl
  unfold onSegment
  split
  · rfl
  dsimp only
  split
  · unfold onSynSent
    split
    · exact (sendAck_stream env _).trans acked
    · exact acked
  · exact (onData_stream env g _).trans acked
  · exact (onData_stream env g _).trans acked
  · exact (onData_stream env g _).trans acked
  · exact acked

/-! ## Sending -/

variable {data : Bytes}

/-- Data that is taken is queued, whatever becomes of the segment. -/
theorem send_taken {s : Tcb} (taken : s.takes data) : (s.send env data).1 = env.sends s.wire.length ∧
      (s.send env data).2.stream = s.stream ++ [(data, env.sends s.wire.length)] := by
  obtain ⟨established, ⟨nonempty, short⟩, room⟩ := taken
  have sized : (data.isEmpty || decide (data.length > maxSeg)) = false := by
    simp [nonempty, short]
  unfold send
  rw [if_neg (not_not.mpr established), sized, if_neg (mt (queued_full_iff s).mp (not_not.mpr room))]
  exact ⟨rfl, rfl⟩

theorem send_stream_subset (data : Bytes) (s : Tcb) : s.stream ⊆ (s.send env data).2.stream := by
  by_cases taken : s.takes data
  · rw [(send_taken env taken).2]
    exact List.subset_append_left _ _
  rw [send_refused env data s taken]
  exact List.Subset.refl _

theorem send_true {s : Tcb} (sent : (s.send env data).1 = true) : (data, true) ∈ (s.send env data).2.stream := by
  by_cases taken : s.takes data
  · obtain ⟨answer, queued⟩ := send_taken env taken
    rw [queued, ← answer, sent]
    simp
  rw [send_refused env data s taken] at sent
  cases sent

/-- Every payload in the queue was reported as sent. -/
def allSent (s : Tcb) : Prop := ∀ e ∈ s.stream, e.2 = true

theorem send_allSent {s : Tcb} (out : s.takes data → env.sends s.wire.length = true) (h : s.allSent) :
    (s.send env data).2.allSent := by
  by_cases taken : s.takes data
  · intro e queued
    rw [(send_taken env taken).2, List.mem_append, List.mem_singleton] at queued
    rcases queued with before | rfl
    · exact h e before
    · exact out taken
  · rw [send_refused env data s taken]
    exact h

end Tcb

/-! ## Whatever TLS does -/

theorem stream_subset_of_uses {s t : Tcb} (used : Crypto.Uses env s t) : s.stream ⊆ t.stream := by
  induction used with
  | refl => exact List.Subset.refl _
  | trans first second before after => exact List.Subset.trans before after
  | tick s => rw [Tcb.tick_stream]; exact List.Subset.refl _
  | send s data => exact Tcb.send_stream_subset env data s
  | close s => rw [Tcb.close_stream]; exact List.Subset.refl _
  | reset s => exact List.Subset.refl _
  | release s n => rw [Tcb.rxRelease_stream]; exact List.Subset.refl _

theorem allSent_of_uses {s t : Tcb} (out : ∀ n, env.sends n = true) (used : Crypto.Uses env s t)
    (h : s.allSent) : t.allSent := by
  induction used with
  | refl => exact h
  | trans first second before after => exact after (before h)
  | tick s =>
    unfold Tcb.allSent
    rw [Tcb.tick_stream]
    exact h
  | send s data => exact Tcb.send_allSent env (fun _ => out _) h
  | close s =>
    unfold Tcb.allSent
    rw [Tcb.close_stream]
    exact h
  | reset s => exact h
  | release s n =>
    unfold Tcb.allSent
    rw [Tcb.rxRelease_stream]
    exact h

end BarryOS.Net.Tcp
