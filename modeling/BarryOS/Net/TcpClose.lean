import BarryOS.Net.TcpTransmit

/-!
# Saying goodbye

`close` queues our FIN, and the timer sends it again until it is acknowledged or the rounds are used
up. Four things get in the way. The peer's FIN moves an open connection to `FinSent`, where `close`
does nothing; in `FinWait` it ends the connection, with our FIN acknowledged or not; every segment that
goes out there starts the timer over, the acknowledgements of what the peer goes on sending too; and a
RST leaves `ACTIVE` on, so that the timer goes on sending what is queued. Runs without the four close as
they should (`closes_of_admits`).
-/

namespace BarryOS.Net.Tcp

open Lib Tcb List

def ourFin (seq : UInt32) : TxEntry := ⟨seq, [], true⟩

/-- The octets our FIN goes out as. -/
def Tcb.finBytes (s : Tcb) (env : Env) (seq : UInt32) : Bytes := s.segmentBytes env.ourIp seq 0x11 []

/-- What ends the wait for the FIN's acknowledgement. -/
inductive Settled (s : Tcb) (c : Call) (seq : UInt32) : Prop
  | acked (ack : Acknowledges s c (ourFin seq))
  | limit (tick : c.op = .tick) (used : maxRetries ≤ s.retries) (lost : (s.step c).state = .failed)
  | reset {src : Ip} {body : Bytes} {g : Segment} (segment : c.op = .segment src body)
      (parsed : s.parse src body = some g) (rst : g.rst = true)
  | connect {ip : Ip} {port : UInt16} (connect : c.op = .connect ip port)

/-- The FIN is handed down in this call, or a segment before it that does not go out. -/
def Repeats (s : Tcb) (c : Call) (seq : UInt32) : Prop :=
  ∃ more, (s.step c).wire = s.wire ++ more ∧ ∃ p ∈ more, p.1 = s.finBytes c.env seq ∨ p.2 = false

/-- Until it is settled, the FIN is sent again at every tick that comes `RETRY_TICKS` or more behind the
time it was last sent, `last`. -/
def Resent (seq : UInt32) : (last : UInt64) → Tcb → List Call → Prop
  | _, _, [] => True
  | last, s, c :: cs =>
    if c.op = .tick ∧ retryTicks ≤ c.env.now.toNat - last.toNat then
      Repeats s c seq ∧ (Settled s c seq ∨ Resent seq c.env.now (s.step c) cs)
    else Settled s c seq ∨ Resent seq last (s.step c) cs

/-- No segment until the next `connect`. -/
def Silent : Tcb → List Call → Prop
  | _, [] => True
  | s, c :: cs => (∃ ip port, c.op = .connect ip port) ∨ (s.step c).wire = s.wire ∧ Silent (s.step c) cs

/-- The connection, and whether a `close` has something to end: it was established, and since then
neither lost nor closed by us. -/
structure Course where
  tcb : Tcb := {}
  opened : Bool := false

def Course.step (k : Course) (c : Call) : Course where
  tcb := k.tcb.step c
  opened := match c.op with
    | .connect _ _ | .close => false
    | _ => (k.opened || (k.tcb.step c).state = .established) && (k.tcb.step c).state ≠ .failed

/-- All along a run: `close` sends our FIN at `SND_NXT`, it is sent again until it is settled, and a
reset or given up connection is silent. -/
def Closes : Course → List Call → Prop
  | _, [] => True
  | k, c :: cs =>
    (c.op = .close → k.opened = true →
      (k.tcb.step c).wire = k.tcb.wire ++ [(k.tcb.finBytes c.env k.tcb.sndNxt, c.env.sends k.tcb.wire.length)] ∧
      Resent k.tcb.sndNxt c.env.now (k.tcb.step c) cs) ∧
    ((∃ src body g, c.op = .segment src body ∧ k.tcb.parse src body = some g ∧ g.rst = true) ∨
      (k.tcb.step c).state = .failed → Silent (k.tcb.step c) cs) ∧ Closes (k.step c) cs

/-- The condition on a call: what the queue asks for; `close` comes before the peer's FIN, a segment
that arrives in `FinWait` acknowledges our FIN or brings neither data nor a FIN, a receive window that was
closed is not opened then, and no round of the timer comes while a reset connection has something queued. -/
def Course.Admits (k : Course) (c : Call) : Prop :=
  ((∀ ip port, c.op ≠ .connect ip port) → Tcp.Admits k.tcb c) ∧ match c.op with
  | .close => k.opened = true → k.tcb.state = .established
  | .tick => k.tcb.state = .failed → k.tcb.active = true → k.tcb.queue ≠ [] →
      c.env.now.toNat - k.tcb.lastSend.toNat < retryTicks
  | .segment src body => ∀ g, k.tcb.parse src body = some g → g.rst = false → k.tcb.state = .finWait →
      (∀ e ∈ k.tcb.queue, Acknowledges k.tcb c e) ∨ g.payload = [] ∧ g.fin = false
  | .release _ => k.tcb.state = .finWait → k.tcb.rxLen < rxCap
  | _ => True

variable {s : Tcb} {k : Course} {c : Call} {cs : List Call} {seq : UInt32}

/-! ## What the calls do -/

namespace Tcb

theorem parse_active {src : Ip} {body : Bytes} {g : Segment} (parsed : s.parse src body = some g) :
    s.active = true := by
  by_contra off
  simp [parse, off] at parsed

variable (env : Env)

theorem close_wire (established : s.state = .established) :
    (s.close env).wire = s.wire ++ [(s.finBytes env s.sndNxt, env.sends s.wire.length)] := by
  have slot : (UInt32.ofNat (s.txTail.toNat % txSlots)).toNat % txSlots = s.txTail.toNat % txSlots := by
    simp only [UInt32.toNat_ofNat', txSlots]
    omega
  unfold close
  rw [if_neg (not_not.mpr established)]
  simp only [queueSlot, emitSlot, slot, Function.update_self]
  rfl

/-- A round hands down every slot, up to one that does not go out. -/
theorem resend_wire (n : Nat) (i : UInt32) (sent : Nat) (s : Tcb) :
    ∃ more, (resend env n i sent s).2.wire = s.wire ++ more ∧ ∀ seq, ourFin seq ∈ ringRead txSlots s.entryAt i.toNat n →
        ∃ p ∈ more, p.1 = s.finBytes env seq ∨ p.2 = false := by
  induction n generalizing i sent s with
  | zero => exact ⟨[], (append_nil _).symm, nofun⟩
  | succ n ih =>
    have first : (emitSlot env i s).2.wire = s.wire ++ [(s.segmentBytes env.ourIp (s.entryAt (i.toNat % txSlots)).seq
      (if (s.entryAt (i.toNat % txSlots)).fin then 0x11 else 0x10) (s.entryAt (i.toNat % txSlots)).payload,
      (emitSlot env i s).1)] := rfl
    unfold resend
    dsimp only
    split
    · obtain ⟨more, wire, handed⟩ := ih (i + 1) (sent + 1) (emitSlot env i s).2
      rw [first, append_assoc] at wire
      refine ⟨_, wire, fun seq queued => ?_⟩
      rw [ringRead_succ, mem_cons, ← entries_next] at queued
      rcases queued with here | later
      · refine ⟨_, mem_cons_self, .inl ?_⟩
        rw [← here]
        rfl
      obtain ⟨p, mem, said⟩ := handed seq later
      exact ⟨p, mem_cons_of_mem _ mem, said⟩
    next stopped => exact ⟨_, first, fun _ _ => ⟨_, mem_cons_self, Or.inr (Bool.not_eq_true _ ▸ stopped)⟩⟩

/-- With something queued, a segment that brings nothing leaves the connection as it stands. -/
theorem onData_bare {g : Segment} (noData : g.payload = []) (noFin : g.fin = false) (queued : s.queue ≠ []) :
    s.onData env g = s := by
  have taken : s.takePayload g = (0, s) := by simp [takePayload, noData]
  unfold onData
  rw [taken]
  dsimp only
  rw [noFin, if_neg Bool.false_ne_true]
  have acked : s.ackPayload env 0 g = s := by simp [ackPayload, noData]
  rw [acked]
  unfold noteFinAcked
  rw [if_neg]
  rintro ⟨-, all⟩
  rw [finAcked, decide_eq_true_eq, ← queue_eq_nil_iff] at all
  exact queued all

theorem resend_lastSend (n : Nat) (i : UInt32) (sent : Nat) (s : Tcb) :
    (resend env (n + 1) i sent s).2.lastSend = env.now := by
  induction n generalizing i sent s with
  | zero => unfold resend; dsimp only; split <;> rfl
  | succ n ih =>
    unfold resend
    dsimp only
    split
    · exact ih _ _ _
    · rfl

/-- An established connection is active. -/
def Live (s : Tcb) : Prop := s.state = .established → s.active = true

theorem Live.onSegment (g : Segment) (active : s.active = true) : (s.onSegment env g).Live := by
  have acked : (s.onAck g).active = true := by
    unfold onAck
    split <;> exact active
  have data : ((s.onAck g).onData env g).Live := by
    have answered := ((offWire_stance.ackPayload env ((s.onAck g).takePayload g).1 g _).trans
      (OffRing.takePayload (fun _ _ _ _ _ => rfl) g (s.onAck g)))
    unfold onData takeFin noteFinAcked
    dsimp only
    split
    · split <;> exact nofun
    split
    · exact nofun
    · exact fun _ => (congrArg Prod.fst answered).trans acked
  unfold Tcb.onSegment
  split
  · exact nofun
  dsimp only
  split
  · unfold onSynSent
    split <;> exact fun _ => acked
  · exact data
  · exact data
  · exact data
  · exact fun _ => acked

theorem Live.of_stance {t : Tcb} (h : s.Live) (same : t.stance = s.stance) : t.Live := by
  obtain ⟨active, state⟩ := Prod.mk.inj same
  rw [Live, active, state]
  exact h

theorem Live.step (h : s.Live) (c : Call) : (s.step c).Live := by
  obtain ⟨env, op⟩ := c
  cases op with
  | connect ip port => exact nofun
  | send data =>
    show (s.send env data).2.Live
    unfold send
    split
    · exact h
    split
    · exact h
    · split <;> exact h
  | close =>
    show (s.close env).Live
    unfold close
    split
    · exact h
    · exact nofun
  | tick =>
    rcases tick_stance env s with same | ⟨-, failed⟩
    · exact h.of_stance same
    · exact fun established => absurd (failed.symm.trans established) (by decide)
  | release n => exact h.of_stance (offWire_stance.rxRelease (fun _ _ => rfl) env n s)
  | segment src body =>
    show (s.handle env src body).Live
    unfold handle
    split
    · exact h
    next parsed => exact Live.onSegment env _ (parse_active parsed)

end Tcb

/-! ## Our FIN on its way -/

/-- Our FIN is queued, the timer is on, and nothing was sent since. -/
structure Owed (s : Tcb) (seq : UInt32) (last : UInt64) : Prop where
  sending : Transmitting s
  queued : ourFin seq ∈ s.queue
  stance : s.stance = (true, .finWait)
  since : s.lastSend = last

variable {last : UInt64}

theorem Owed.handed (h : Owed s seq last) (env : Env) (due : retryTicks ≤ env.now.toNat - last.toNat) :
    Repeats s ⟨env, .tick⟩ seq ∧ (s.tick env).lastSend = env.now := by
  obtain ⟨active, waiting⟩ := Prod.mk.inj h.stance
  rw [← h.since] at due
  have queued : s.txHead ≠ s.txTail := mt (s.queue_eq_nil_iff).mpr (ne_nil_of_mem h.queued)
  have counted : ∀ t : Tcb, t.countRetry.wire = t.wire ∧ t.countRetry.lastSend = t.lastSend := fun t => by
    unfold countRetry
    dsimp only
    split <;> exact ⟨rfl, rfl⟩
  have round : (s.tick env).wire = (resend env s.queued s.txHead 0 s).2.wire ∧
      (s.tick env).lastSend = (resend env s.queued s.txHead 0 s).2.lastSend := by
    unfold tick
    rw [active, if_neg (by decide), if_neg (Nat.not_lt.mpr due), if_neg (by rw [waiting]; decide), if_neg queued]
    dsimp only
    split
    · exact counted _
    · exact ⟨rfl, rfl⟩
  obtain ⟨more, wire, handed⟩ := resend_wire env s.queued s.txHead 0 s
  obtain ⟨n, some'⟩ : ∃ n, s.queued = n + 1 := Nat.exists_eq_succ_of_ne_zero fun none => by
    have := h.queued
    rw [Tcb.queue, none] at this
    cases this
  rw [some'] at round
  exact ⟨⟨more, by rw [← wire, some']; exact round.1, handed seq h.queued⟩, round.2.trans (resend_lastSend env n _ _ _)⟩

/-- When something was last sent, after a call that leaves the FIN queued. -/
def sentAt (c : Call) (last : UInt64) : UInt64 :=
  if c.op = .tick ∧ retryTicks ≤ c.env.now.toNat - last.toNat then c.env.now else last

theorem sentAt_of_ne (other : c.op ≠ .tick) : sentAt c last = last := if_neg fun ticks => other ticks.1

theorem Owed.lastSend_tick (h : Owed s seq last) (env : Env) : (s.tick env).lastSend = sentAt ⟨env, .tick⟩ last := by
  by_cases due : retryTicks ≤ env.now.toNat - last.toNat
  · exact (h.handed env due).2.trans (if_pos ⟨rfl, due⟩).symm
  have early : s.tick env = s := by
    unfold tick
    rw [(Prod.mk.inj h.stance).1, if_neg (by decide), if_pos (by rw [h.since]; omega)]
  rw [early, h.since, sentAt, if_neg fun both => due both.2]

theorem Owed.step (h : Owed k.tcb seq last) (ok : k.Admits c) :
    Settled k.tcb c seq ∨ Owed (k.tcb.step c) seq (sentAt c last) := by
  by_cases connects : ∃ ip port, c.op = .connect ip port
  · obtain ⟨ip, port, connects⟩ := connects
    exact .inl (.connect connects)
  push Not at connects
  obtain ⟨-, waiting⟩ := Prod.mk.inj h.stance
  have safe := stepSafe h.sending (ok.1 connects)
  rcases safe.kept _ h.queued with still | acked
  swap
  · exact .inl (.acked acked)
  -- The FIN stays queued: what is left is that the connection stays as it stands.
  suffices kept : Settled k.tcb c seq ∨
      (k.tcb.step c).stance = k.tcb.stance ∧ (k.tcb.step c).lastSend = sentAt c last from
    kept.imp_right fun same => ⟨safe.inv, still, same.1.trans h.stance, same.2⟩
  have notOpen : k.tcb.state ≠ .established := by
    rw [waiting]
    decide
  have unmoved : c.op ≠ .tick → k.tcb.step c = k.tcb →
      (k.tcb.step c).stance = k.tcb.stance ∧ (k.tcb.step c).lastSend = sentAt c last := by
    intro other same
    rw [same, sentAt_of_ne other]
    exact ⟨rfl, h.since⟩
  obtain ⟨env, op⟩ := c
  cases op with
  | connect ip port => exact absurd rfl (connects ip port)
  | send data =>
    exact .inr (unmoved (by simp) (congrArg Prod.snd (send_refused env data k.tcb fun takes => notOpen takes.1)))
  | close => exact .inr (unmoved (by simp) (if_pos notOpen))
  | tick =>
    refine (tick_stance env k.tcb).symm.imp (fun used => .limit rfl used.1 used.2) fun same => ?_
    exact ⟨same, h.lastSend_tick env⟩
  | release n =>
    refine .inr ⟨offWire_stance.rxRelease (fun _ _ => rfl) env n k.tcb, ?_⟩
    have room := ok.2 waiting
    rw [sentAt_of_ne (by simp), ← h.since]
    show (k.tcb.rxRelease env n).lastSend = k.tcb.lastSend
    unfold rxRelease
    dsimp only
    rw [if_neg (Nat.not_le.mpr room)]
    split <;> rfl
  | segment src body =>
    simp only [step, handle] at still ⊢
    cases parsed : k.tcb.parse src body with
    | none => exact .inr ⟨rfl, h.since.trans (sentAt_of_ne (by simp)).symm⟩
    | some g =>
      rw [parsed] at still
      dsimp only at still ⊢
      cases reset : g.rst with
      | true => exact .inl (.reset rfl parsed reset)
      | false =>
        rcases ok.2 g parsed reset waiting with acks | ⟨noData, noFin⟩
        · exact .inl (.acked (acks _ h.queued))
        rw [onSegment_synchronised env g k.tcb reset (by rw [waiting]; rfl)] at still ⊢
        rw [queue_of_tx (onData_tx env g _)] at still
        rw [onData_bare env noData noFin (ne_nil_of_mem still), sentAt_of_ne (by simp), ← h.since]
        refine .inr ?_
        unfold onAck
        split <;> exact ⟨rfl, rfl⟩

theorem Owed.resent (h : Owed k.tcb seq last) (admitted : Along Course.step Course.Admits k cs) :
    Resent seq last k.tcb cs := by
  induction cs generalizing k last with
  | nil => trivial
  | cons c cs ih =>
    have next := h.step admitted.1
    unfold Resent
    unfold sentAt at next
    split at next
    next due =>
      obtain ⟨env, op⟩ := c
      obtain ⟨rfl, late⟩ := due
      rw [if_pos ⟨rfl, late⟩]
      exact ⟨(h.handed env late).1, next.imp_right fun owed => ih owed admitted.2⟩
    next early =>
      rw [if_neg early]
      exact next.imp_right fun owed => ih owed admitted.2

/-! ## Silence -/

theorem failed_step (failed : k.tcb.state = .failed) (ok : k.Admits c)
    (connects : ¬ ∃ ip port, c.op = .connect ip port) :
    (k.tcb.step c).state = .failed ∧ (k.tcb.step c).wire = k.tcb.wire := by
  have notOpen : k.tcb.state ≠ .established := by
    rw [failed]
    decide
  have unmoved : k.tcb.step c = k.tcb → (k.tcb.step c).state = .failed ∧ (k.tcb.step c).wire = k.tcb.wire :=
    fun same => same.symm ▸ ⟨failed, rfl⟩
  obtain ⟨env, op⟩ := c
  cases op with
  | connect ip port => exact absurd ⟨ip, port, rfl⟩ connects
  | send data => exact unmoved (congrArg Prod.snd (send_refused env data k.tcb fun takes => notOpen takes.1))
  | close => exact unmoved (if_pos notOpen)
  | tick =>
    apply unmoved
    show k.tcb.tick env = k.tcb
    unfold tick
    split
    · rfl
    rename_i active
    split
    · rfl
    rename_i due
    rw [if_neg (by rw [failed]; decide)]
    split
    · rfl
    next queued =>
      exact absurd (ok.2 failed (by simpa using active) (mt (k.tcb.queue_eq_nil_iff).mp queued)) due
  | release n =>
    refine ⟨(rxRelease_state env n k.tcb).trans failed, ?_⟩
    show (k.tcb.rxRelease env n).wire = _
    simp only [rxRelease, failed]
    repeat' split
    all_goals rfl
  | segment src body =>
    simp only [step, handle]
    split
    · exact ⟨failed, rfl⟩
    rename_i g parsed
    cases reset : g.rst with
    | true =>
      rw [onSegment_reset env g k.tcb reset]
      exact ⟨rfl, rfl⟩
    | false =>
      rw [onSegment_idle env g k.tcb reset (by rw [failed]; decide) (by rw [failed]; rfl)]
      refine ⟨(onAck_state g k.tcb).trans failed, ?_⟩
      unfold onAck
      split <;> rfl

theorem silent_of_failed (failed : k.tcb.state = .failed) (admitted : Along Course.step Course.Admits k cs) :
    Silent k.tcb cs := by
  induction cs generalizing k with
  | nil => trivial
  | cons c cs ih =>
    by_cases connects : ∃ ip port, c.op = .connect ip port
    · exact .inl connects
    obtain ⟨still, wire⟩ := failed_step failed admitted.1 connects
    exact .inr ⟨wire, ih still admitted.2⟩

/-! ## Runs -/

theorem Transmitting.closes (sending : Transmitting k.tcb) (live : k.tcb.Live)
    (admitted : Along Course.step Course.Admits k cs) : Closes k cs := by
  induction cs generalizing k with
  | nil => trivial
  | cons c cs ih =>
    obtain ⟨ok, rest⟩ := admitted
    have next : Transmitting (k.tcb.step c) := by
      by_cases connects : ∃ ip port, c.op = .connect ip port
      · obtain ⟨env, op⟩ := c
        obtain ⟨ip, port, rfl⟩ := connects
        exact sending.of_connect env ip port
      push Not at connects
      exact (stepSafe sending (ok.1 connects)).inv
    refine ⟨?_, ?_, ih next (live.step c) rest⟩
    · obtain ⟨env, op⟩ := c
      rintro rfl opened
      have established := ok.2 opened
      have queue := queue_push (ok.1 nofun established) (close_tx env k.tcb sending.lens established)
      refine ⟨close_wire env established, Owed.resent (k := k.step ⟨env, .close⟩) ⟨next, ?_, ?_, ?_⟩ rest⟩
      · show ourFin _ ∈ (k.tcb.close env).queue
        rw [queue]
        exact mem_append_right _ (mem_singleton_self _)
      · show (k.tcb.close env).stance = _
        unfold close
        rw [if_neg (not_not.mpr established)]
        exact Prod.ext (live established) rfl
      · show (k.tcb.close env).lastSend = _
        unfold close
        rw [if_neg (not_not.mpr established)]
        rfl
    · rintro lost
      refine silent_of_failed (k := k.step c) (lost.elim ?_ id) rest
      rintro ⟨src, body, g, segment, parsed, rst⟩
      obtain ⟨env, op⟩ := c
      cases segment
      simp only [Course.step, step, handle, parsed, onSegment_reset env g k.tcb rst]

/-- In every run from boot whose calls all meet the condition, `close` sends our FIN and the timer
repeats it until it is settled, and a lost connection is silent. -/
theorem closes_of_admits (cs : List Call) (admitted : Along Course.step Course.Admits {} cs) : Closes {} cs :=
  Transmitting.boot.closes nofun admitted

/-- We close, the FIN is sent once more, and the peer acknowledges it. -/
def goodbye : List Call :=
  openCalls ++ [⟨quietEnv, .close⟩, ⟨{ quietEnv with now := 100 }, .tick⟩,
    ⟨quietEnv, .segment peerIp (peerSegment 101 0x10 2 [])⟩]

theorem closes_goodbye : (run Course.step {} goodbye).tcb.wire.length = 4 ∧ Closes {} goodbye := by
  have acked : (run step {} (goodbye.take 4)).parse peerIp (peerSegment 101 0x10 2 []) = some ⟨101, 2, 0x10, []⟩ := by
    decide
  refine ⟨by decide, closes_of_admits goodbye ⟨⟨fun other => absurd rfl (other _ _), trivial⟩, ⟨fun _ => ?_, ?_⟩,
    ⟨fun _ _ => by decide, fun _ => by decide⟩, ⟨fun _ => trivial, ?_⟩, ⟨fun _ => ?_, ?_⟩, trivial⟩⟩
  · intro g _ _ _ queued
    exact absurd (by decide) queued
  · intro g _ _ waiting
    exact absurd waiting (by decide)
  · intro failed
    exact absurd failed (by decide)
  · intro g hg _ _ _ _
    cases acked.symm.trans hg
    decide
  · intro g hg _ _
    cases acked.symm.trans hg
    exact .inr ⟨rfl, by decide⟩

/-- The peer says goodbye first: `close` then sends no FIN. -/
theorem close_after_the_peer_sends_nothing :
    ¬ Closes {} (openCalls ++ [⟨quietEnv, .segment peerIp (peerSegment 101 0x11 1 [])⟩, ⟨quietEnv, .close⟩]) := by
  intro closes
  have sent := (closes.2.2.2.2.2.2.1 rfl (by decide)).1
  exact absurd (congrArg List.length sent) (by decide)

end BarryOS.Net.Tcp
