import BarryOS.Net.TcpFrame

/-!
# Where SYNs go

Only `connect` names a peer. Whatever else happens to a connection, a SYN that goes out is
one more copy of the one `connect` has sent.
-/

namespace BarryOS.Net.Tcp

open Lib

variable (env : Env)

/-- The connection is not opened again; SYNs go where the last one went. -/
structure Kept (s t : Tcb) : Prop where
  state : t.state = .synSent → s.state = .synSent ∧ t.remoteIp = s.remoteIp
  syns : ∃ new, t.syns = s.syns ++ new ∧ ∀ dest ∈ new, s.state = .synSent ∧ dest = s.remoteIp

namespace Kept

theorem of_syns {s t : Tcb} (state : t.state = .synSent → s.state = .synSent ∧ t.remoteIp = s.remoteIp)
    (syns : t.syns = s.syns) : Kept s t :=
  ⟨state, [], by simp [syns], by simp⟩

variable (s : Tcb)

theorem refl : Kept s s := of_syns (fun syn => ⟨syn, rfl⟩) rfl

theorem trans {s t u : Tcb} (first : Kept s t) (second : Kept t u) : Kept s u := by
  refine ⟨fun syn => ?_, ?_⟩
  · obtain ⟨before, remote⟩ := second.state syn
    exact ⟨(first.state before).1, remote.trans (first.state before).2⟩
  · obtain ⟨new, grown, there⟩ := first.syns
    obtain ⟨more, grown', there'⟩ := second.syns
    refine ⟨new ++ more, by simp [grown, grown'], ?_⟩
    intro dest member
    rcases List.mem_append.mp member with early | late
    · exact there dest early
    obtain ⟨before, remote⟩ := there' dest late
    exact ⟨(first.state before).1, remote.trans (first.state before).2⟩

theorem emit {flags : UInt8} (other : flags ≠ 0x02) (seq : UInt32) (payload : Bytes) (s : Tcb) :
    Kept s (s.emit env seq flags payload).2 :=
  of_syns (fun syn => ⟨syn, rfl⟩) (if_neg other)

theorem emitSlot (slot : UInt32) (s : Tcb) : Kept s (s.emitSlot env slot).2 := by
  apply emit
  split <;> decide

theorem sendAck : Kept s (s.sendAck env) := by
  unfold Tcb.sendAck
  split
  · exact emit env (by decide) _ _ s
  · exact emit env (by decide) _ _ s
  · exact emit env (by decide) _ _ s
  · exact refl s

theorem reset : Kept s s.reset := of_syns (fun syn => State.noConfusion syn) rfl

theorem rxRelease (n : Nat) (s : Tcb) : Kept s (s.rxRelease env n) := by
  unfold Tcb.rxRelease
  dsimp only
  split
  · exact refl s
  have released : Kept s { s with rxHead := s.rxHead + UInt32.ofNat (min n s.rxLen) } :=
    of_syns (fun syn => ⟨syn, rfl⟩) rfl
  split
  · exact released.trans (sendAck env _)
  · exact released

theorem send (data : Bytes) (s : Tcb) : Kept s (s.send env data).2 := by
  unfold Tcb.send
  split
  · exact refl s
  split
  · exact refl s
  split
  · exact refl s
  refine trans ?_ (emitSlot env _ _)
  exact of_syns (fun syn => ⟨syn, rfl⟩) rfl

theorem close : Kept s (s.close env) := by
  unfold Tcb.close
  split
  · exact refl s
  refine trans ?_ (emitSlot env _ _)
  exact of_syns (fun syn => State.noConfusion syn) rfl

/-! ## Timers -/

theorem resend (n : Nat) (slot : UInt32) (sent : Nat) (s : Tcb) : Kept s (s.resend env n slot sent).2 := by
  induction n generalizing slot sent s with
  | zero => exact refl s
  | succ n ih =>
    unfold Tcb.resend
    dsimp only
    split
    · exact (emitSlot env slot s).trans (ih _ _ _)
    · exact emitSlot env slot s

theorem countRetry : Kept s s.countRetry := by
  unfold Tcb.countRetry
  dsimp only
  split
  · exact of_syns (fun syn => State.noConfusion syn) rfl
  · exact of_syns (fun syn => ⟨syn, rfl⟩) rfl

theorem tick : Kept s (s.tick env) := by
  unfold Tcb.tick
  split
  · exact refl s
  split
  · exact refl s
  split
  next syn =>
    have again : Kept s (s.emit env s.iss 0x02 []).2 := by
      refine ⟨fun syn => ⟨syn, rfl⟩, [s.remoteIp], rfl, ?_⟩
      intro dest member
      exact ⟨syn, List.mem_singleton.mp member⟩
    dsimp only
    split
    · exact again.trans (countRetry _)
    · exact again
  · split
    · exact refl s
    dsimp only
    split
    · exact (resend env _ _ _ s).trans (countRetry _)
    · exact resend env _ _ _ s

/-! ## Segments -/

theorem takePayload (g : Segment) (s : Tcb) : Kept s (s.takePayload g).2 := by
  unfold Tcb.takePayload Tcb.appendRx
  split
  · exact refl s
  split
  · dsimp only
    split
    · split <;> exact of_syns (fun syn => ⟨syn, rfl⟩) rfl
    · split <;> exact of_syns (fun syn => ⟨syn, rfl⟩) rfl
  · exact refl s

theorem onData (g : Segment) (s : Tcb) : Kept s (s.onData env g) := by
  unfold Tcb.onData
  dsimp only
  refine (takePayload g s).trans ?_
  split
  · unfold Tcb.takeFin
    dsimp only
    have acked : Kept (s.takePayload g).2 (Tcb.sendAck env { (s.takePayload g).2 with
          peerClosed := true, rcvNxt := (s.takePayload g).2.rcvNxt + 1 }) := by
      refine trans ?_ (sendAck env _)
      exact of_syns (fun syn => ⟨syn, rfl⟩) rfl
    split
    · exact acked.trans (of_syns (fun syn => State.noConfusion syn) rfl)
    · exact acked.trans (of_syns (fun syn => State.noConfusion syn) rfl)
  · have acked : Kept (s.takePayload g).2 ((s.takePayload g).2.ackPayload env (s.takePayload g).1 g) := by
      unfold Tcb.ackPayload
      split
      · exact sendAck env _
      · exact refl _
    refine acked.trans ?_
    unfold Tcb.noteFinAcked
    split
    · exact of_syns (fun syn => State.noConfusion syn) rfl
    · exact refl _

theorem handle (src : Ip) (body : Bytes) (s : Tcb) : Kept s (s.handle env src body) := by
  unfold Tcb.handle
  split
  · exact refl s
  rename_i g _
  unfold Tcb.onSegment
  split
  · exact of_syns (fun syn => State.noConfusion syn) rfl
  have acked : Kept s (s.onAck g) := by
    unfold Tcb.onAck
    split
    · exact of_syns (fun syn => ⟨syn, rfl⟩) rfl
    · exact refl s
  dsimp only
  refine acked.trans ?_
  split
  · unfold Tcb.onSynSent
    split
    · refine trans ?_ (sendAck env _)
      exact of_syns (fun syn => State.noConfusion syn) rfl
    · exact refl _
  · exact onData env g _
  · exact onData env g _
  · exact onData env g _
  · exact refl _

theorem step {c : Call} (other : ∀ ip port, c.op ≠ .connect ip port) : Kept s (s.step c) := by
  obtain ⟨env, op⟩ := c
  cases op with
  | connect ip port => exact absurd rfl (other ip port)
  | send data => exact send env data s
  | close => exact close env s
  | tick => exact tick env s
  | segment src body => exact handle env src body s
  | release n => exact rxRelease env n s

end Kept

/-- The SYN of a new connection goes to the peer it names. -/
theorem connect_syns (ip : Ip) (port : UInt16) (s : Tcb) :
    (s.connect env ip port).2.syns = s.syns ++ [ip.toU32] ∧ (s.connect env ip port).2.remoteIp = ip.toU32 :=
  ⟨rfl, rfl⟩

end BarryOS.Net.Tcp
