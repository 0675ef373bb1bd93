import BarryOS.Lib.Run
import BarryOS.Net.TcpFrame

/-!
# The transmit queue

The queue is what stands between `TX_HEAD` and `TX_TAIL`: entries with the sequence
number, the payload and the FIN flag they were accepted with. Its entries are
contiguous in sequence space, from `SND_UNA` to `SND_NXT`, which is what makes the
loop of `ack_advance` retire exactly what an acknowledgement covers.

Two calls step outside this. `close` queues its FIN without asking for room, and the
ninth entry lands in the oldest one's slot; and an acknowledgement up to half the
sequence space ahead of `SND_UNA` is taken, also one for octets never sent. Runs
without the two (`Admits`) keep every accepted entry until it is acknowledged.
-/

namespace BarryOS.Net.Tcp

open Lib Tcb TxEntry UInt32 Function
open UInt32 (toNat_sub toNat_add toNat_ofNat' ofNat_add)
open Function (update)

/-- The sequence space it takes. -/
def TxEntry.span (e : TxEntry) : Nat := e.payload.length + if e.fin then 1 else 0

def spanTotal (q : List TxEntry) : Nat := (q.map span).sum

@[simp] theorem spanTotal_nil : spanTotal [] = 0 := rfl

@[simp] theorem spanTotal_cons (e : TxEntry) (q : List TxEntry) : spanTotal (e :: q) = e.span + spanTotal q := by
  simp [spanTotal]

@[simp] theorem spanTotal_append (p q : List TxEntry) : spanTotal (p ++ q) = spanTotal p + spanTotal q := by
  simp [spanTotal]

/-- Each entry starts where the one before it ended, and is neither empty nor longer
than a segment. -/
def Contiguous : UInt32 → List TxEntry → Prop
  | _, [] => True
  | una, e :: q =>
    e.seq = una ∧ 1 ≤ e.span ∧ e.span ≤ maxSeg ∧ Contiguous (una + UInt32.ofNat e.span) q

theorem contiguous_append (una : UInt32) (p q : List TxEntry) : Contiguous una (p ++ q) ↔
      Contiguous una p ∧ Contiguous (una + UInt32.ofNat (spanTotal p)) q := by
  induction p generalizing una with
  | nil => simp [Contiguous]
  | cons e p ih =>
    simp only [List.cons_append, Contiguous, ih, spanTotal_cons, ofNat_add, and_assoc, UInt32.add_assoc]

theorem Contiguous.total_le {una : UInt32} {q : List TxEntry} (h : Contiguous una q) :
    spanTotal q ≤ maxSeg * q.length := by
  induction q generalizing una with
  | nil => simp
  | cons e q ih =>
    have rest := ih h.2.2.2
    have own := h.2.2.1
    rw [spanTotal_cons, List.length_cons, Nat.mul_succ]
    omega

/-- The test of `ack_advance`. -/
def TxEntry.retired (ack : UInt32) (e : TxEntry) : Bool := ack - e.seq ≥ UInt32.ofNat e.span

variable {e : TxEntry}

/-- Of a contiguous queue, an acknowledgement retires only entries it covers. -/
theorem Contiguous.retired_covered {una ack : UInt32} {q : List TxEntry} (h : Contiguous una q)
    (short : spanTotal q < 2 ^ 31) (he : e ∈ q.takeWhile (retired ack)) :
    (e.seq - una).toNat + e.span ≤ (ack - una).toNat := by
  induction q generalizing una with
  | nil => simp at he
  | cons f q ih =>
    obtain ⟨hseq, _, hspan, hq⟩ := h
    rw [spanTotal_cons] at short
    rw [List.takeWhile_cons] at he
    split at he
    next gone =>
      have reached : f.span ≤ (ack - una).toNat := by
        simp only [retired, hseq, decide_eq_true_eq, le_iff_toNat_le, toNat_ofNat'] at gone
        omega
      rcases List.mem_cons.mp he with rfl | he
      · rw [hseq]
        simpa using reached
      have later := ih hq (by omega) he
      have inside := toNat_lt (e.seq - (una + UInt32.ofNat f.span))
      simp only [toNat_sub, toNat_add, toNat_ofNat'] at later reached inside ⊢
      have := una.toNat_lt
      omega
    · simp at he

/-! ## The queue of a connection -/

/-- What `send` and `close` do to the send side: one more entry, numbered `SND_NXT`, in
the slot of `TX_TAIL`. -/
def TxView.push (v : TxView) (e : TxEntry) : TxView :=
  { v with
    sndNxt := v.sndNxt + UInt32.ofNat e.span
    txTail := v.txTail + 1
    entryAt := update v.entryAt (v.txTail.toNat % txSlots) e }

namespace Tcb

def queued (s : Tcb) : Nat := (s.txTail - s.txHead).toNat

/-- The entries from `TX_HEAD` to `TX_TAIL`, oldest first. -/
def queue (s : Tcb) : List TxEntry := ringRead txSlots s.entryAt s.txHead.toNat s.queued

variable (s : Tcb)

@[simp] theorem queue_length : s.queue.length = s.queued := ringRead_length _ _ _ _

theorem queue_of_tx {s t : Tcb} (h : s.tx = t.tx) : s.queue = t.queue := by
  have hh : s.txHead = t.txHead := congrArg TxView.txHead h
  have ht : s.txTail = t.txTail := congrArg TxView.txTail h
  have he : s.entryAt = t.entryAt := congrArg TxView.entryAt h
  rw [queue, queue, queued, queued, hh, ht, he]

theorem queue_eq_nil_iff : s.queue = [] ↔ s.txHead = s.txTail := by
  rw [← List.length_eq_zero_iff, queue_length, queued, ← UInt32.toNat_inj, toNat_sub]
  have := s.txHead.toNat_lt
  have := s.txTail.toNat_lt
  omega

/-! ### Accepting an entry -/

/-- Writing one slot's payload reads back from that slot and from no other. -/
theorem loadBytes_slot (bs : Bytes) (buf : Nat → UInt8) (slot i len : Nat)
    (short : bs.length ≤ maxSeg) (own : i = slot → len = bs.length) (fits : len ≤ maxSeg) :
    loadBytes (storeBytes buf (slot * maxSeg) bs) (i * maxSeg) len =
      if i = slot then bs else loadBytes buf (i * maxSeg) len := by
  by_cases same : i = slot
  · subst same
    rw [if_pos rfl, own rfl, loadBytes_store]
  rw [if_neg same]
  apply loadBytes_store_frame
  unfold maxSeg at *
  omega

/-- The control block after an entry was put in the slot of `TX_TAIL`. -/
theorem tx_push {s t : Tcb} (short : e.payload.length ≤ maxSeg)
    (lens : ∀ i, (s.entryAt i).payload.length ≤ maxSeg) (una : t.sndUna = s.sndUna)
    (nxt : t.sndNxt = s.sndNxt + UInt32.ofNat e.span) (head : t.txHead = s.txHead) (tail : t.txTail = s.txTail + 1)
    (seq : t.txSlotSeq = update s.txSlotSeq (s.txTail.toNat % txSlots) e.seq)
    (len : t.txSlotLen = update s.txSlotLen (s.txTail.toNat % txSlots) e.payload.length)
    (fin : t.txSlotFin = update s.txSlotFin (s.txTail.toNat % txSlots) e.fin)
    (buf : t.txBuf = storeBytes s.txBuf (s.txTail.toNat % txSlots * maxSeg) e.payload) : t.tx = s.tx.push e := by
  generalize slotEq : s.txTail.toNat % txSlots = slot at *
  have entries : t.entryAt = update s.entryAt slot e := by
    funext i
    have hlen : update s.txSlotLen slot e.payload.length i ≤ maxSeg := by
      by_cases same : i = slot
      · rwa [same, update_self]
      rw [update_of_ne same]
      simpa [entryAt, payloadOf] using lens i
    have payload := loadBytes_slot e.payload s.txBuf slot i (update s.txSlotLen slot e.payload.length i) short
      (fun same => by rw [same, update_self]) hlen
    rw [← len, ← buf] at payload
    unfold entryAt payloadOf
    rw [payload, seq, fin, len]
    by_cases same : i = slot
    · simp [same]
    · simp [same]
  unfold tx TxView.push
  rw [una, nxt, head, tail, entries]
  rw [slotEq]

/-- The three tests of `send`. -/
def takes (s : Tcb) (data : Bytes) : Prop :=
  s.state = .established ∧ (data ≠ [] ∧ data.length ≤ maxSeg) ∧ s.queued < txSlots

instance (s : Tcb) (data : Bytes) : Decidable (s.takes data) :=
  inferInstanceAs (Decidable (_ ∧ (_ ∧ _) ∧ _))

/-- What a call accepts for sending: the data of a `send` that is not refused, and the
FIN of a `close`. -/
def accepts (s : Tcb) (c : Call) : Option TxEntry :=
  match c.op with
  | .send data => if s.takes data then some ⟨s.sndNxt, data, false⟩ else none
  | .close => if s.state = .established then some ⟨s.sndNxt, [], true⟩ else none
  | _ => none

theorem queued_full_iff : s.txTail - s.txHead ≥ 8 ↔ ¬ s.queued < txSlots := by
  rw [ge_iff_le, le_iff_toNat_le, queued, txSlots]
  simp

theorem send_refused (env : Env) (data : Bytes) (s : Tcb) (h : ¬ s.takes data) : s.send env data = (false, s) := by
  unfold send
  split
  · rfl
  rename_i established
  split
  · rfl
  rename_i sized
  split
  · rfl
  rename_i room
  rw [queued_full_iff] at room
  simp only [Bool.or_eq_true, List.isEmpty_iff, decide_eq_true_eq, not_or, Nat.not_lt] at sized
  exact absurd ⟨not_not.mp established, sized, not_not.mp room⟩ h

theorem send_tx (env : Env) (data : Bytes) (s : Tcb)
    (lens : ∀ i, (s.entryAt i).payload.length ≤ maxSeg) (h : s.takes data) :
    (s.send env data).2.tx = s.tx.push ⟨s.sndNxt, data, false⟩ := by
  obtain ⟨established, ⟨nonempty, short⟩, room⟩ := h
  have sized : (data.isEmpty || decide (data.length > maxSeg)) = false := by
    simp [nonempty, short]
  have notFull : ¬ s.txTail - s.txHead ≥ 8 := by
    rw [queued_full_iff]
    exact not_not.mpr room
  unfold send
  rw [if_neg (not_not.mpr established), sized, if_neg notFull]
  exact tx_push short lens rfl rfl rfl rfl rfl rfl rfl rfl

theorem close_tx (env : Env) (s : Tcb) (lens : ∀ i, (s.entryAt i).payload.length ≤ maxSeg)
    (established : s.state = .established) : (s.close env).tx = s.tx.push ⟨s.sndNxt, [], true⟩ := by
  unfold close
  rw [if_neg (not_not.mpr established)]
  exact tx_push (Nat.zero_le _) lens rfl rfl rfl rfl rfl rfl rfl rfl

/-- With room, the entry goes behind those already queued and disturbs none of them. -/
theorem queue_push {s t : Tcb} (room : s.queued < txSlots) (h : t.tx = s.tx.push e) : t.queue = s.queue ++ [e] := by
  have hh : t.txHead = s.txHead := congrArg TxView.txHead h
  have ht : t.txTail = s.txTail + 1 := congrArg TxView.txTail h
  have count : t.queued = s.queued + 1 := by
    simp only [queued, hh, ht, toNat_sub, toNat_add, UInt32.toNat_one] at room ⊢
    unfold txSlots at room
    omega
  have slot : s.txTail.toNat % txSlots = (s.txHead.toNat + s.queued) % txSlots := by
    simp only [queued, toNat_sub, txSlots]
    have := s.txHead.toNat_lt
    omega
  have he : t.entryAt = ringWrite txSlots s.entryAt (s.txHead.toNat + s.queued) [e] := by
    have written : t.entryAt = update s.entryAt (s.txTail.toNat % txSlots) e := congrArg TxView.entryAt h
    rw [written, slot]
    rfl
  have kept := ringRead_write_frame txSlots [e] s.entryAt s.txHead.toNat s.queued room
  have added := ringRead_write txSlots [e] s.entryAt (s.txHead.toNat + s.queued) (by simp [txSlots])
  rw [queue, hh, count, ringRead_add, he, kept]
  exact congrArg (_ ++ ·) added

/-! ### Retiring entries -/

variable (ack : UInt32)

theorem retired_iff (i : Nat) : ack - s.txSlotSeq i ≥ s.slotSpan i ↔ (s.entryAt i).retired ack = true := by
  have span : s.slotSpan i = UInt32.ofNat (s.entryAt i).span := by
    unfold slotSpan span entryAt payloadOf
    cases s.txSlotFin i <;> simp
  rw [span, retired, decide_eq_true_eq]
  rfl

/-- The counter of a loop over the slots may wrap; its residue does not notice. -/
theorem entries_next (entries : Nat → TxEntry) (head : UInt32) (n : Nat) :
    ringRead txSlots entries (head + 1).toNat n = ringRead txSlots entries (head.toNat + 1) n := by
  rw [← ringRead_mod, ← ringRead_mod _ _ (head.toNat + 1)]
  congr 1
  simp only [toNat_add, UInt32.toNat_one, txSlots]
  omega

/-- The loop of `ack_advance` moves `TX_HEAD` over the entries it retires. -/
theorem retire_eq (n : Nat) (head : UInt32) : s.retire ack n head = head + UInt32.ofNat
      ((ringRead txSlots s.entryAt head.toNat n).takeWhile (retired ack)).length := by
  induction n generalizing head with
  | zero => simp [retire]
  | succ n ih =>
    rw [ringRead_succ, List.takeWhile_cons]
    by_cases gone : (s.entryAt (head.toNat % txSlots)).retired ack = true
    · rw [if_pos gone, List.length_cons, ← entries_next, ofNat_add, UInt32.add_comm (UInt32.ofNat _),
        ← UInt32.add_assoc]
      exact (if_pos ((s.retired_iff ack _).mpr gone)).trans (ih (head + 1))
    rw [if_neg gone, List.length_nil, show UInt32.ofNat 0 = 0 from rfl, UInt32.add_zero]
    exact if_neg (fun h => gone ((s.retired_iff ack _).mp h))

/-- What an acknowledgement does to the queue: the entries it retires leave at the front. -/
theorem ackAdvance_queue (s : Tcb) : (s.ackAdvance ack).queue = s.queue.dropWhile (retired ack) := by
  obtain ⟨k, hk⟩ : ∃ k, k = (s.queue.takeWhile (retired ack)).length := ⟨_, rfl⟩
  have split : s.queue.takeWhile (retired ack) ++ s.queue.dropWhile (retired ack) =
      s.queue := List.takeWhile_append_dropWhile
  have inside : k ≤ s.queued := by
    rw [hk, ← queue_length]
    exact List.IsPrefix.length_le <| List.takeWhile_prefix _
  have head : (s.ackAdvance ack).txHead = s.txHead + UInt32.ofNat k := by
    rw [hk]
    exact s.retire_eq ack s.queued s.txHead
  have tail : (s.ackAdvance ack).txTail = s.txTail := rfl
  have entries : (s.ackAdvance ack).entryAt = s.entryAt := rfl
  have count : (s.ackAdvance ack).queued = s.queued - k := by
    simp only [queued, head, tail, toNat_sub, toNat_add, toNat_ofNat'] at inside ⊢
    have := s.txHead.toNat_lt
    omega
  have residue : (s.txHead + UInt32.ofNat k).toNat % txSlots = (s.txHead.toNat + k) % txSlots := by
    simp only [toNat_add, toNat_ofNat', txSlots]
    omega
  have parts : s.queue = ringRead txSlots s.entryAt s.txHead.toNat k ++ (s.ackAdvance ack).queue := by
    rw [queue, queue, count, head, entries, ← ringRead_mod _ _ (s.txHead + UInt32.ofNat k).toNat,
      residue, ringRead_mod, ← ringRead_add, Nat.add_sub_cancel' inside]
  refine (List.append_inj_right (split.trans parts) ?_).symm
  rw [ringRead_length, hk]

theorem ackAdvance_una (s : Tcb) : (s.ackAdvance ack).sndUna = match (s.ackAdvance ack).queue with
      | [] => s.sndNxt
      | e :: _ => e.seq := by
  have una : (s.ackAdvance ack).sndUna = if (s.ackAdvance ack).txHead = (s.ackAdvance ack).txTail
      then s.sndNxt else s.txSlotSeq ((s.ackAdvance ack).txHead.toNat % txSlots) := rfl
  have empty := (s.ackAdvance ack).queue_eq_nil_iff
  rw [una]
  cases hq : (s.ackAdvance ack).queue with
  | nil => rw [if_pos (empty.mp hq)]
  | cons e q =>
    rw [if_neg (fun h => by simp [empty.mpr h] at hq)]
    cases count : (s.ackAdvance ack).queued with
    | zero => simp [queue, count] at hq
    | succ n =>
      rw [queue, count, ringRead_succ] at hq
      obtain ⟨first, _⟩ := List.cons_eq_cons.mp hq
      rw [← first]
      rfl

end Tcb

/-! ## The invariant -/

/-- The queue is within its slots and contiguous from `SND_UNA`, and `SND_NXT` is where
it ends. -/
structure Transmitting (s : Tcb) : Prop where
  lens : ∀ i, (s.entryAt i).payload.length ≤ maxSeg
  room : s.queued ≤ txSlots
  contiguous : Contiguous s.sndUna s.queue
  next : s.state = .established ∨ s.queue ≠ [] → s.sndNxt = s.sndUna + UInt32.ofNat (spanTotal s.queue)
  opening : s.state = .synSent → s.queue = []

variable {s : Tcb}

theorem Transmitting.total_lt (h : Transmitting s) : spanTotal s.queue < 2 ^ 31 := by
  have total := h.contiguous.total_le
  have room := h.room
  rw [queue_length] at total
  unfold maxSeg at total
  unfold txSlots at room
  omega

theorem Transmitting.of_same_tx {s t : Tcb} (h : Transmitting s) (same : t.tx = s.tx)
    (established : t.state = .established → s.state = .established)
    (opening : t.state = .synSent → s.state = .synSent) : Transmitting t := by
  have queue := queue_of_tx same
  have una : t.sndUna = s.sndUna := congrArg TxView.sndUna same
  have nxt : t.sndNxt = s.sndNxt := congrArg TxView.sndNxt same
  have entries : t.entryAt = s.entryAt := congrArg TxView.entryAt same
  refine ⟨?_, ?_, ?_, ?_, ?_⟩
  · rw [entries]
    exact h.lens
  · rw [← queue_length, queue, queue_length]
    exact h.room
  · rw [una, queue]
    exact h.contiguous
  · rw [una, nxt, queue]
    intro live
    exact h.next (live.imp_left established)
  · rw [queue]
    exact fun e => h.opening (opening e)

theorem Transmitting.of_empty (lens : ∀ i, (s.entryAt i).payload.length ≤ maxSeg)
    (empty : s.queue = []) (next : s.state = .established → s.sndNxt = s.sndUna) : Transmitting s := by
  refine ⟨lens, ?_, ?_, ?_, fun _ => empty⟩
  · rw [← queue_length, empty]
    exact Nat.zero_le _
  · rw [empty]
    trivial
  · intro live
    rw [empty] at live ⊢
    simpa using next (live.resolve_right (by simp))

/-- An accepted entry extends the queue at its end. -/
theorem Transmitting.of_push {s t : Tcb} (h : Transmitting s)
    (room : s.queued < txSlots) (pushed : t.tx = s.tx.push e) (seq : e.seq = s.sndNxt)
    (span : 1 ≤ e.span ∧ e.span ≤ maxSeg) (established : s.state = .established)
    (opening : t.state ≠ .synSent) : Transmitting t := by
  have queue := queue_push room pushed
  have una : t.sndUna = s.sndUna := congrArg TxView.sndUna pushed
  have nxt : t.sndNxt = s.sndNxt + UInt32.ofNat e.span := congrArg TxView.sndNxt pushed
  have entries : t.entryAt = update s.entryAt (s.txTail.toNat % txSlots) e := congrArg TxView.entryAt pushed
  have next := h.next (.inl established)
  refine ⟨?_, ?_, ?_, ?_, fun e => absurd e opening⟩
  · intro i
    rw [entries]
    by_cases same : i = s.txTail.toNat % txSlots
    · rw [same, update_self]
      have := span.2
      unfold TxEntry.span at this
      omega
    rw [update_of_ne same]
    exact h.lens i
  · rw [← queue_length, queue, List.length_append, queue_length]
    exact room
  · rw [una, queue, contiguous_append]
    exact ⟨h.contiguous, seq.trans next, span.1, span.2, trivial⟩
  · intro _
    rw [una, nxt, next, queue, spanTotal_append, UInt32.add_assoc]
    simp

/-- Retiring entries leaves a contiguous queue that starts at the new `SND_UNA`. -/
theorem Transmitting.of_ackAdvance (ack : UInt32) (h : Transmitting s) : Transmitting (s.ackAdvance ack) := by
  have queue := s.ackAdvance_queue ack
  have una := s.ackAdvance_una ack
  have nxt : (s.ackAdvance ack).sndNxt = s.sndNxt := rfl
  obtain ⟨gone, kept, split, keptEq⟩ : ∃ gone kept, s.queue = gone ++ kept ∧ (s.ackAdvance ack).queue = kept :=
    ⟨_, _, List.takeWhile_append_dropWhile.symm, queue⟩
  have contiguous := h.contiguous
  rw [split, contiguous_append] at contiguous
  refine ⟨h.lens, ?_, ?_, ?_, ?_⟩
  · have room := h.room
    rw [← queue_length, split, List.length_append] at room
    rw [← queue_length, keptEq]
    omega
  · rw [keptEq] at una ⊢
    cases kept with
    | nil => trivial
    | cons e q =>
      have first : (s.ackAdvance ack).sndUna = e.seq := una
      rw [first, contiguous.2.1]
      exact contiguous.2
  · intro live
    rw [nxt]
    rw [keptEq] at una live ⊢
    cases kept with
    | nil => simpa using una.symm
    | cons e q =>
      have next := h.next (.inr (by rw [split]; simp))
      have first : (s.ackAdvance ack).sndUna = e.seq := una
      rw [first, contiguous.2.1, next, split, spanTotal_append, ofNat_add, UInt32.add_assoc]
  · intro opening
    have empty := h.opening opening
    rw [queue, empty]
    rfl

theorem Transmitting.of_onAck (g : Segment) (h : Transmitting s) : Transmitting (s.onAck g) := by
  unfold onAck
  split
  · exact (h.of_ackAdvance g.ack).of_same_tx rfl id id
  · exact h

/-! ## Calls -/

/-- A segment acknowledges an entry: its acknowledgement number covers the entry and does
not exceed `SND_NXT`. Both are distances from `SND_UNA`. -/
def Acknowledges (s : Tcb) (c : Call) (e : TxEntry) : Prop :=
  match c.op with
  | .segment src body => ∃ g, s.parse src body = some g ∧ g.hasAck = true ∧
      (e.seq - s.sndUna).toNat + e.span ≤ (g.ack - s.sndUna).toNat ∧
      (g.ack - s.sndUna).toNat ≤ (s.sndNxt - s.sndUna).toNat
  | _ => False

/-- The condition on a call, in the state it is made in: a connection is started with
nothing queued, `close` finds a free slot, and an acknowledgement that is taken while
something is queued does not exceed `SND_NXT`. -/
def Admits (s : Tcb) (c : Call) : Prop :=
  match c.op with
  | .connect _ _ => s.queue = []
  | .close => s.state = .established → s.queued < txSlots
  | .segment src body => ∀ g, s.parse src body = some g → g.rst = false → g.hasAck = true →
      s.queue ≠ [] → g.ack - s.sndUna < 0x80000000 → (g.ack - s.sndUna).toNat ≤ (s.sndNxt - s.sndUna).toNat
  | _ => True

/-- The entries after `onAck`: an entry that is gone was acknowledged. -/
theorem Transmitting.onAck_keeps {g : Segment} (h : Transmitting s)
    (sane : g.hasAck = true → s.queue ≠ [] → g.ack - s.sndUna < 0x80000000 →
      (g.ack - s.sndUna).toNat ≤ (s.sndNxt - s.sndUna).toNat) (he : e ∈ s.queue) :
    e ∈ (s.onAck g).queue ∨ (g.hasAck = true ∧ (e.seq - s.sndUna).toNat + e.span ≤ (g.ack - s.sndUna).toNat ∧
      (g.ack - s.sndUna).toNat ≤ (s.sndNxt - s.sndUna).toNat) := by
  unfold onAck
  split
  next taken =>
    have queue : queue { s.ackAdvance g.ack with retries := 0 } =
        s.queue.dropWhile (retired g.ack) := s.ackAdvance_queue g.ack
    rw [queue]
    rw [← List.takeWhile_append_dropWhile (p := retired g.ack) (l := s.queue), List.mem_append] at he
    rcases he with gone | kept
    · right
      have covered := h.contiguous.retired_covered h.total_lt gone
      have nonempty : s.queue ≠ [] := by
        intro empty
        simp [empty] at gone
      exact ⟨taken.1, covered, sane taken.1 nonempty taken.2⟩
    · exact .inl kept
  · exact .inl he

variable (env : Env)

/-- The `SynSent` arm finds an empty queue, and starts `SND_UNA` and `SND_NXT` together. -/
theorem Transmitting.of_onSynSent (g : Segment) (h : Transmitting s)
    (opening : s.state = .synSent) : Transmitting (s.onSynSent env g) := by
  have empty := h.opening opening
  unfold onSynSent
  split
  · have same := sendAck_tx env { s with rcvNxt := g.seq + 1, sndUna := g.ack, sndNxt := g.ack, state := .established }
    refine Transmitting.of_empty ?_ ((queue_of_tx same).trans empty) ?_
    · intro i
      have entry := congrArg (fun v => (TxView.entryAt v i).payload.length) same
      exact Nat.le_trans (Nat.le_of_eq entry) (h.lens i)
    · intro _
      exact (congrArg TxView.sndNxt same).trans (congrArg TxView.sndUna same).symm
  · exact h

theorem onSynSent_queue (g : Segment) (s : Tcb) : (s.onSynSent env g).queue = s.queue := by
  unfold onSynSent
  split
  · exact (queue_of_tx (sendAck_tx env _)).trans rfl
  · rfl

/-- A segment keeps the invariant, and takes nothing from the queue but by `onAck`. -/
theorem Transmitting.of_segment (g : Segment) (h : Transmitting s) : Transmitting (s.onSegment env g) ∧
      ((s.onSegment env g).queue = s.queue ∨ g.rst = false ∧ (s.onSegment env g).queue = (s.onAck g).queue) := by
  have acked := h.of_onAck g
  cases reset : g.rst with
  | true =>
    rw [onSegment_reset env g s reset]
    exact ⟨h.of_same_tx rfl (by simp) (by simp), .inl rfl⟩
  | false =>
    by_cases opening : s.state = .synSent
    · rw [onSegment_opening env g s reset opening]
      exact ⟨acked.of_onSynSent env g (by simpa using opening), .inr ⟨rfl, onSynSent_queue env g _⟩⟩
    cases sync : s.state.synchronised with
    | true =>
      rw [onSegment_synchronised env g s reset sync]
      have same := onData_tx env g (s.onAck g)
      refine ⟨acked.of_same_tx same ?_ ?_, .inr ⟨rfl, queue_of_tx same⟩⟩
      · rcases onData_state env g (s.onAck g) with e | e | e <;> simp [e]
      · rcases onData_state env g (s.onAck g) with e | e | e <;> simp [e]
    | false =>
      rw [onSegment_idle env g s reset opening sync]
      exact ⟨acked, .inr ⟨rfl, rfl⟩⟩

theorem Transmitting.of_connect (ip : Ip) (port : UInt16)
    (h : Transmitting s) : Transmitting (s.connect env ip port).2 := by
  refine Transmitting.of_empty h.lens ((queue_eq_nil_iff _).mpr rfl) ?_
  intro live
  exact absurd live (by simp [connect, emit])

/-- One call: the invariant, what it accepts, and what may leave the queue. -/
structure StepSafe (s : Tcb) (c : Call) : Prop where
  inv : Transmitting (s.step c)
  accepted : ∀ e, s.accepts c = some e → e ∈ (s.step c).queue
  kept : ∀ e ∈ s.queue, e ∈ (s.step c).queue ∨ Acknowledges s c e

theorem StepSafe.of_push {c : Call} (h : Transmitting s)
    (room : s.queued < txSlots) (pushed : (s.step c).tx = s.tx.push e)
    (accepts : s.accepts c = some e) (seq : e.seq = s.sndNxt)
    (span : 1 ≤ e.span ∧ e.span ≤ maxSeg) (established : s.state = .established)
    (opening : (s.step c).state ≠ .synSent) : StepSafe s c := by
  have queue := queue_push room pushed
  refine ⟨h.of_push room pushed seq span established opening, ?_, ?_⟩
  · intro f hf
    cases accepts.symm.trans hf
    simp [queue]
  · intro f hf
    left
    simp [queue, hf]

theorem StepSafe.of_same_tx {c : Call} (h : Transmitting s) (same : (s.step c).tx = s.tx) (accepts : s.accepts c = none)
    (established : (s.step c).state = .established → s.state = .established)
    (opening : (s.step c).state = .synSent → s.state = .synSent) : StepSafe s c := by
  refine ⟨h.of_same_tx same established opening, ?_, ?_⟩
  · intro e he
    simp [accepts] at he
  · intro e he
    rw [queue_of_tx same]
    exact .inl he

theorem stepSafe {c : Call} (h : Transmitting s) (admits : Admits s c) : StepSafe s c := by
  obtain ⟨env, op⟩ := c
  cases op with
  | connect ip port =>
    refine ⟨h.of_connect env ip port, by simp [accepts], ?_⟩
    intro e he
    have empty : s.queue = [] := admits
    simp [empty] at he
  | send data =>
    have state : (s.step ⟨env, .send data⟩).state = s.state := send_state env data s
    by_cases takes : s.takes data
    · have nonempty := List.length_pos_iff.mpr takes.2.1.1
      refine StepSafe.of_push h takes.2.2 (send_tx env data s h.lens takes) (by simp [accepts, takes]) rfl ?_ takes.1 ?_
      · simpa using ⟨nonempty, takes.2.1.2⟩
      · rw [state, takes.1]
        simp
    · have same : (s.step ⟨env, .send data⟩) = s := congrArg Prod.snd (send_refused env data s takes)
      refine StepSafe.of_same_tx h (by rw [same]) (by simp [accepts, takes]) ?_ ?_
      · rw [state]
        exact id
      · rw [state]
        exact id
  | close =>
    by_cases established : s.state = .established
    · have state : (s.close env).state = .finWait := by
        unfold close
        rw [if_neg (not_not.mpr established)]
        rfl
      refine StepSafe.of_push h (admits established) (close_tx env s h.lens established)
        (by simp [accepts, established]) rfl (by simp [span, maxSeg]) established ?_
      show (s.close env).state ≠ _
      rw [state]
      simp
    · have same : (s.step ⟨env, .close⟩) = s := if_pos established
      refine StepSafe.of_same_tx h (by rw [same]) (by simp [accepts, established]) ?_ ?_
      · rw [same]
        exact id
      · rw [same]
        exact id
  | tick =>
    have state := tick_state env s
    refine StepSafe.of_same_tx h (tick_tx env s) rfl ?_ ?_
    · show (s.tick env).state = _ → _
      rcases state with e | e <;> simp [e]
    · show (s.tick env).state = _ → _
      rcases state with e | e <;> simp [e]
  | release n =>
    have state : (s.step ⟨env, .release n⟩).state = s.state := rxRelease_state env n s
    refine StepSafe.of_same_tx h (rxRelease_tx env n s) rfl ?_ ?_
    · rw [state]
      exact id
    · rw [state]
      exact id
  | segment src body =>
    cases parsed : s.parse src body with
    | none =>
      have same : s.step ⟨env, .segment src body⟩ = s := by
        simp [step, handle, parsed]
      refine StepSafe.of_same_tx h (by rw [same]) rfl ?_ ?_
      · rw [same]
        exact id
      · rw [same]
        exact id
    | some g =>
      have stepped : s.step ⟨env, .segment src body⟩ = s.onSegment env g := by
        simp [step, handle, parsed]
      obtain ⟨inv, queue⟩ := h.of_segment env g
      rw [← stepped] at inv queue
      refine ⟨inv, by simp [accepts], ?_⟩
      intro e he
      rcases queue with same | ⟨noReset, same⟩
      · rw [same]
        exact .inl he
      rw [same]
      refine (h.onAck_keeps (admits g parsed noReset) he).imp_right ?_
      rintro ⟨ack, covered, sane⟩
      exact ⟨g, parsed, ack, covered, sane⟩

/-! ## Runs -/

/-- An entry queued in `s` is still queued after `es`, or some segment among them
acknowledged it while it was. -/
def StaysUntilAcked (s : Tcb) (es : List Call) (e : TxEntry) : Prop :=
  e ∈ (run step s es).queue ∨ ∃ before c after, es = before ++ c :: after ∧ e ∈ (run step s before).queue ∧
      Acknowledges (run step s before) c e

/-- Every entry accepted in a run from boot stays until it is acknowledged, and the queue
never outgrows its slots. -/
def TransmitSafe (ds : List Call) : Prop :=
  (∀ before c after e, ds = before ++ c :: after → (run step {} before).accepts c = some e →
    StaysUntilAcked (run step {} (before ++ [c])) after e) ∧ (run step {} ds).queue.length ≤ txSlots

theorem Transmitting.boot : Transmitting {} := by
  refine Transmitting.of_empty ?_ rfl (by simp)
  intro i
  simp [entryAt, payloadOf]

theorem Transmitting.stays {es : List Call} (h : Transmitting s)
    (admitted : Along step Admits s es) (he : e ∈ s.queue) : StaysUntilAcked s es e := by
  induction es generalizing s with
  | nil => exact .inl he
  | cons c es ih =>
    obtain ⟨inv, _, kept⟩ := stepSafe h admitted.1
    rcases kept e he with still | acked
    · rcases ih inv admitted.2 still with last | ⟨before, d, after, split, queued, acked⟩
      · exact .inl last
      · exact .inr ⟨c :: before, d, after, by rw [split]; rfl, queued, acked⟩
    · exact .inr ⟨[], c, es, rfl, he, acked⟩

theorem transmitSafe_of_admits (ds : List Call) (admitted : Along step Admits {} ds) : TransmitSafe ds := by
  have kept : ∀ s c, Transmitting s → Admits s c → Transmitting (s.step c) := fun s c h ok => (stepSafe h ok).inv
  constructor
  · rintro before c after e rfl accepts
    obtain ⟨first, rest⟩ := (along_append _ _ _ _ _).mp admitted
    have inv := first.invariant Transmitting kept Transmitting.boot
    obtain ⟨inv', accepted, _⟩ := stepSafe inv rest.1
    rw [run_append]
    exact inv'.stays rest.2 (accepted e accepts)
  · rw [queue_length]
    exact (admitted.invariant Transmitting kept Transmitting.boot).room

/-! ## Two short runs -/

/-- An open connection: the peer acknowledges octet 1 as the next one it wants. -/
def openCalls : List Call :=
  [⟨quietEnv, .connect peerIp 80⟩, ⟨quietEnv, .segment peerIp (peerSegment 100 0x12 1 [])⟩]

def sendAndAck : List Call :=
  openCalls ++ [⟨quietEnv, .send [7, 8]⟩, ⟨quietEnv, .segment peerIp (peerSegment 101 0x10 3 [])⟩]

theorem transmitSafe_sendAndAck : (run step {} sendAndAck).sndUna = 3 ∧ TransmitSafe sendAndAck := by
  refine ⟨by decide, transmitSafe_of_admits sendAndAck ⟨rfl, ?_, trivial, ?_, trivial⟩⟩
  · intro g _ _ _ queued
    exact absurd (by decide) queued
  · intro g hg _ _ _ _
    have parsed : (run step {} (sendAndAck.take 3)).parse peerIp (peerSegment 101 0x10 3 []) =
        some ⟨101, 3, 0x10, []⟩ := by
      decide
    cases parsed.symm.trans hg
    decide

/-- Eight sends fill the queue; the FIN of `close` is then written over the first. -/
theorem close_overwrites_the_oldest :
    ¬ TransmitSafe (openCalls ++ List.replicate 8 ⟨quietEnv, .send [7]⟩ ++ [⟨quietEnv, .close⟩]) := by
  intro safe
  exact absurd safe.2 (by decide)

end BarryOS.Net.Tcp
