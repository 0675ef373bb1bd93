import BarryOS.Net.Tcp

/-!
# What each call leaves alone

The receive side and the send side of the control block are looked at apart. Here is,
for each function, that it does not touch one of them, and what it does to the state.
-/

namespace BarryOS.Net.Tcp

open Lib

/-- The receive side of the control block. -/
structure RxView where
  rcvNxt : UInt32
  rxHead : UInt32
  rxTail : UInt32
  rxBuf : Nat → UInt8

/-- One queued segment. -/
structure TxEntry where
  seq : UInt32
  payload : Bytes
  fin : Bool
  deriving DecidableEq, Repr

/-- The send side of the control block. -/
structure TxView where
  sndUna : UInt32
  sndNxt : UInt32
  txHead : UInt32
  txTail : UInt32
  entryAt : Nat → TxEntry

/-- `Established`, `FinWait` and `FinSent`: the states that take data. -/
def State.synchronised : State → Bool
  | .established | .finWait | .finSent => true
  | _ => false

namespace Tcb

def stance (s : Tcb) : Bool × State := (s.active, s.state)

def rx (s : Tcb) : RxView := ⟨s.rcvNxt, s.rxHead, s.rxTail, s.rxBuf⟩

def entryAt (s : Tcb) (i : Nat) : TxEntry :=
  ⟨s.txSlotSeq i, s.payloadOf i (s.txSlotLen i), s.txSlotFin i⟩

def tx (s : Tcb) : TxView := ⟨s.sndUna, s.sndNxt, s.txHead, s.txTail, s.entryAt⟩

/-! ## Views

What part of the control block a call leaves as it is, said once for every part. -/

section Views

variable {α : Type} {f : Tcb → α}

/-- A view that does not show what a segment that goes out changes. -/
def OffWire (f : Tcb → α) : Prop :=
  ∀ s lastSend wire syns, f { s with lastSend := lastSend, wire := wire, syns := syns } = f s

/-- A view that does not show what a payload that comes in changes. -/
def OffRing (f : Tcb → α) : Prop :=
  ∀ s rcvNxt buf tail truncated,
    f { s with rcvNxt := rcvNxt, rxBuf := buf, rxTail := tail, rxTruncated := truncated } = f s

/-- A view that does not show what the timer changes. -/
structure OffTimer (f : Tcb → α) : Prop where
  offWire : OffWire f
  counted : ∀ s retries, f { s with retries := retries } = f s
  failed : ∀ s, f { s with state := .failed, active := false } = f s

theorem OffWire.sendAck (h : OffWire f) (env : Env) (s : Tcb) : f (sendAck env s) = f s := by
  unfold Tcb.sendAck
  split
  · exact h _ _ _ _
  · exact h _ _ _ _
  · exact h _ _ _ _
  · rfl

theorem OffWire.ackPayload (h : OffWire f) (env : Env) (consumed : Nat) (g : Segment) (s : Tcb) :
    f (s.ackPayload env consumed g) = f s := by
  unfold Tcb.ackPayload
  split
  · exact h.sendAck env s
  · rfl

/-- Giving back room moves `RX_HEAD`, and may announce it. -/
theorem OffWire.rxRelease (h : OffWire f) (offHead : ∀ s head, f { s with rxHead := head } = f s) (env : Env) (n : Nat)
    (s : Tcb) : f (s.rxRelease env n) = f s := by
  unfold Tcb.rxRelease
  dsimp only
  split
  · rfl
  split
  · exact (h.sendAck env _).trans (offHead s _)
  · exact offHead s _

theorem OffWire.resend (h : OffWire f) (env : Env) (n : Nat) (i : UInt32) (sent : Nat) (s : Tcb) :
    f (resend env n i sent s).2 = f s := by
  induction n generalizing i sent s with
  | zero => rfl
  | succ n ih =>
    have first : f (emitSlot env i s).2 = f s := h _ _ _ _
    unfold Tcb.resend
    dsimp only
    split
    · exact (ih _ _ _).trans first
    · exact first

theorem OffRing.takePayload (h : OffRing f) (g : Segment) (s : Tcb) : f (s.takePayload g).2 = f s := by
  unfold Tcb.takePayload appendRx
  split
  · rfl
  split
  · dsimp only
    split <;> dsimp only <;> split <;> exact h s _ _ _ _
  · rfl

theorem OffTimer.countRetry (h : OffTimer f) (s : Tcb) : f s.countRetry = f s := by
  unfold Tcb.countRetry
  dsimp only
  split
  · exact (h.failed { s with retries := s.retries + 1 }).trans (h.counted s _)
  · exact h.counted s _

theorem OffTimer.tick (h : OffTimer f) (env : Env) (s : Tcb) : f (s.tick env) = f s := by
  unfold Tcb.tick
  split
  · rfl
  split
  · rfl
  split
  · have again : f (emit env s.iss 0x02 [] s).2 = f s := h.offWire _ _ _ _
    dsimp only
    split
    · exact (h.countRetry _).trans again
    · exact again
  split
  · rfl
  have round := h.offWire.resend env (s.txTail - s.txHead).toNat s.txHead 0 s
  dsimp only
  split
  · exact (h.countRetry _).trans round
  · exact round

end Views

theorem offTimer_rx : OffTimer rx := ⟨fun _ _ _ _ => rfl, fun _ _ => rfl, fun _ => rfl⟩

theorem offTimer_tx : OffTimer tx := ⟨fun _ _ _ _ => rfl, fun _ _ => rfl, fun _ => rfl⟩

theorem offWire_state : OffWire state := fun _ _ _ _ => rfl

theorem offWire_stance : OffWire stance := fun _ _ _ _ => rfl

/-! ## The receive side and the state -/

variable (env : Env) (data : Bytes) (n consumed : Nat) (g : Segment) (s : Tcb)

@[simp] theorem sendAck_rx : (sendAck env s).rx = s.rx := offTimer_rx.offWire.sendAck env s

@[simp] theorem onAck_rx : (s.onAck g).rx = s.rx := by
  unfold onAck
  split <;> rfl

@[simp] theorem onAck_state : (s.onAck g).state = s.state := by
  unfold onAck
  split <;> rfl

theorem send_rx : (s.send env data).2.rx = s.rx := by
  unfold send
  split
  · rfl
  split
  · rfl
  · split <;> rfl

theorem send_state : (s.send env data).2.state = s.state := by
  unfold send
  split
  · rfl
  split
  · rfl
  · split <;> rfl

theorem close_rx : (s.close env).rx = s.rx := by
  unfold close
  split <;> rfl

theorem close_state : (s.close env).state = s.state ∨ s.state = .established ∧ (s.close env).state = .finWait := by
  unfold close
  split
  · exact .inl rfl
  next h => exact Or.inr ⟨by simpa using h, rfl⟩

theorem countRetry_stance : s.countRetry.stance = s.stance ∨ maxRetries ≤ s.retries ∧ s.countRetry.state = .failed := by
  unfold countRetry
  dsimp only
  split
  next past =>
    refine .inr ⟨?_, rfl⟩
    rw [gt_iff_lt, UInt32.lt_iff_toNat_lt, UInt32.toNat_add] at past
    rw [UInt32.le_iff_toNat_le]
    simp only [UInt32.reduceToNat] at past ⊢
    omega
  · exact .inl rfl

theorem tick_rx : (s.tick env).rx = s.rx := offTimer_rx.tick env s

/-- The timer leaves the connection as it stands, or gives it up. -/
theorem tick_stance : (s.tick env).stance = s.stance ∨ maxRetries ≤ s.retries ∧ (s.tick env).state = .failed := by
  unfold tick
  split
  · exact .inl rfl
  split
  · exact .inl rfl
  split
  · dsimp only
    split
    · exact countRetry_stance _
    · exact .inl rfl
  split
  · exact .inl rfl
  have stance := offWire_stance.resend env (s.txTail - s.txHead).toNat s.txHead 0 s
  have retries := OffWire.resend (f := retries) (fun _ _ _ _ => rfl) env (s.txTail - s.txHead).toNat s.txHead 0 s
  dsimp only
  split
  · rw [← stance, ← retries]
    exact countRetry_stance _
  · exact .inl stance

theorem tick_state : (s.tick env).state = s.state ∨ (s.tick env).state = .failed :=
  (tick_stance env s).imp (congrArg Prod.snd) And.right

theorem ackPayload_state : (s.ackPayload env consumed g).state = s.state := offWire_state.ackPayload env consumed g s

theorem noteFinAcked_rx : s.noteFinAcked.rx = s.rx := by
  unfold noteFinAcked
  split <;> rfl

theorem onData_rx : (s.onData env g).rx =
      if g.fin then { (s.takePayload g).2.rx with rcvNxt := (s.takePayload g).2.rcvNxt + 1 }
      else (s.takePayload g).2.rx := by
  unfold onData
  dsimp only
  split
  · unfold takeFin
    dsimp only
    split
    · exact sendAck_rx env _
    · exact sendAck_rx env _
  · rw [noteFinAcked_rx, offTimer_rx.offWire.ackPayload]

theorem takePayload_state : (s.takePayload g).2.state = s.state :=
  OffRing.takePayload (fun _ _ _ _ _ => rfl) g s

/-- A segment leaves the state as it is, or the FIN ends the peer's half. -/
theorem onData_state :
    (s.onData env g).state = s.state ∨ (s.onData env g).state = .finSent ∨ (s.onData env g).state = .closed := by
  have kept := takePayload_state g s
  unfold onData
  dsimp only
  split
  · unfold takeFin
    dsimp only
    split
    · exact .inr (.inr rfl)
    · exact .inr (.inl rfl)
  unfold noteFinAcked
  split
  · exact .inr (.inl rfl)
  · exact .inl (by rw [ackPayload_state, kept])

theorem rxRelease_state : (s.rxRelease env n).state = s.state :=
  offWire_state.rxRelease (fun _ _ => rfl) env n s

/-! ## The arms of `handle` -/

theorem onSegment_reset (reset : g.rst = true) : s.onSegment env g = { s with state := .failed } := by
  unfold onSegment
  rw [if_pos reset]

theorem onSegment_opening (noReset : g.rst = false)
    (opening : s.state = .synSent) : s.onSegment env g = (s.onAck g).onSynSent env g := by
  unfold onSegment
  simp [noReset, opening]

theorem onSegment_synchronised (noReset : g.rst = false)
    (sync : s.state.synchronised = true) : s.onSegment env g = (s.onAck g).onData env g := by
  unfold onSegment
  cases hs : s.state <;> simp_all [State.synchronised]

/-- A connection that is neither opening nor synchronised takes nothing. -/
theorem onSegment_idle (noReset : g.rst = false)
    (opening : s.state ≠ .synSent) (sync : s.state.synchronised = false) : s.onSegment env g = s.onAck g := by
  unfold onSegment
  cases hs : s.state <;> simp_all [State.synchronised]

/-! ## The send side -/

@[simp] theorem sendAck_tx : (sendAck env s).tx = s.tx := offTimer_tx.offWire.sendAck env s

theorem rxRelease_tx : (s.rxRelease env n).tx = s.tx :=
  offTimer_tx.offWire.rxRelease (fun _ _ => rfl) env n s

theorem tick_tx : (s.tick env).tx = s.tx := offTimer_tx.tick env s

theorem takePayload_tx : (s.takePayload g).2.tx = s.tx :=
  OffRing.takePayload (fun _ _ _ _ _ => rfl) g s

theorem noteFinAcked_tx : s.noteFinAcked.tx = s.tx := by
  unfold noteFinAcked
  split <;> rfl

theorem onData_tx : (s.onData env g).tx = s.tx := by
  unfold onData
  dsimp only
  split
  · unfold takeFin
    dsimp only
    split
    · exact (sendAck_tx env _).trans (takePayload_tx g s)
    · exact (sendAck_tx env _).trans (takePayload_tx g s)
  · rw [noteFinAcked_tx, offTimer_tx.offWire.ackPayload, takePayload_tx]

end Tcb

/-! ## A network for short runs

The peer is at port 80, our port is 40000, and everything handed down goes out. -/

def peerSegment (seq : UInt32) (flags : UInt8) (ack : UInt32) (payload : Bytes) : Bytes :=
  be16 80 ++ be16 40000 ++ be32 seq ++ be32 ack ++ [0x50, flags, 0, 0, 0, 0, 0, 0] ++ payload

def quietEnv : Env := ⟨0, 0, 40000, ⟨10, 0, 2, 15⟩, fun _ => true⟩

def peerIp : Ip := ⟨10, 0, 2, 2⟩

end BarryOS.Net.Tcp
