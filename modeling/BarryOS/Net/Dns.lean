import BarryOS.Lib.Utf8
import BarryOS.Net.Ipv4

/-!
# DNS (net/dns.rs)

One lookup at a time. Its state and its result are global: whoever asks next finds what the
last lookup has left. `wire` records the queries handed to `udp::send`, whose answer the code
ignores; no function reads it. The counters and the log are left out.
-/

namespace BarryOS.Net.Dns

open Lib

inductive State where
  | idle | waiting | answered | failed
  deriving DecidableEq, Repr

def retryTicks : Nat := 200

def maxAttempts : UInt32 := 3

structure Resolver where
  server : UInt32 := 0
  localPort : UInt16 := 0
  queryId : UInt16 := 0
  lastSend : UInt64 := 0
  attempts : UInt32 := 0
  state : State := .idle
  result : UInt32 := 0
  /-- `NAME[..NAME_LEN]`. -/
  name : Bytes := []
  wire : List Bytes := []

/-! ## Asking -/

/-- `b.to_ascii_lowercase()`. -/
def lower (b : UInt8) : UInt8 := if 0x41 ≤ b && b ≤ 0x5A then b + 0x20 else b

/-- The labels of a name behind their lengths, as far as the buffer of 256 octets reaches. -/
def encodeLabels : List Bytes → Bytes → Option Bytes
  | [], done => some done
  | label :: rest, done =>
    if label.isEmpty then encodeLabels rest done
    else if 12 + done.length + 1 + label.length ≥ 256 then none
    else encodeLabels rest (done ++ UInt8.ofNat label.length :: label)

/-- The octets of a query: one question, for an address. -/
def queryBytes (id : UInt16) (labels : Bytes) : Bytes :=
  be16 id ++ be16 0x0100 ++ be16 1 ++ zeros 6 ++ labels ++ [0] ++ be16 1 ++ be16 1

namespace Resolver

def sendQuery (now : UInt64) (r : Resolver) : Resolver :=
  let text := if validUtf8 r.name then r.name else []
  match encodeLabels (text.splitOn 0x2E) [] with
  | none => { r with state := .failed }
  | some labels => { r with lastSend := now, wire := r.wire ++ [queryBytes r.queryId labels] }

/-- Begin resolving `name`. -/
def start (now : UInt64) (name : Bytes) (r : Resolver) : Bool × Resolver :=
  if name.length > 63 || name.isEmpty then (false, r)
  else if r.server = 0 then (false, r)
  else (true, sendQuery now { r with
    name := name.map lower
    queryId := (r.queryId + 1) ||| 0x0100
    attempts := 0
    state := .waiting })

/-- Take the resolved address, if one has arrived. -/
def takeResult (r : Resolver) : Option Ip × Resolver :=
  if r.state ≠ .answered then (none, r) else (some (Ip.ofU32 r.result), { r with state := .idle })

/-- Retransmit, and give up eventually. -/
def tick (now : UInt64) (r : Resolver) : Resolver :=
  if r.state ≠ .waiting then r
  else if now.toNat - r.lastSend.toNat < retryTicks then r
  else
    let r := { r with attempts := r.attempts + 1 }
    if r.attempts ≥ maxAttempts then { r with state := .failed } else sendQuery now r

end Resolver

/-! ## Answers -/

/-- Offset just past the name that starts at `i`. Every round goes forward. -/
def skipName (msg : Bytes) : Nat → Nat → Option Nat
  | 0, _ => none
  | fuel + 1, i =>
    if i ≥ msg.length then none
    else
      let len := octet msg i
      if len &&& 0xC0 = 0xC0 then if i + 1 < msg.length then some (i + 2) else none
      else if len = 0 then some (i + 1)
      else skipName msg fuel (i + 1 + len.toNat)

def skipQuestions (msg : Bytes) : Nat → Nat → Option Nat
  | 0, i => some i
  | n + 1, i =>
    match skipName msg (msg.length + 1) i with
    | none => none
    | some next => skipQuestions msg n (next + 4)

/-- What the answers hold: nothing readable, an address, or no address. -/
inductive Found where
  | broken
  | address (ip : Ip)
  | none
  deriving DecidableEq

def findAddress (msg : Bytes) : Nat → Nat → Found
  | 0, _ => .none
  | n + 1, i =>
    match skipName msg (msg.length + 1) i with
    | .none => .broken
    | some i =>
      if i + 10 > msg.length then .broken
      else
        let rdlen := (be16At msg (i + 8)).toNat
        if i + 10 + rdlen > msg.length then .broken
        else if be16At msg i = 1 && rdlen = 4 then .address (Ipv4.ipAt msg (i + 10))
        else findAddress msg n (i + 10 + rdlen)

/-- Where the answers are read from. -/
def answersAt (msg : Bytes) : Found :=
  match skipQuestions msg (be16At msg 4).toNat 12 with
  | .none => .broken
  | some i => findAddress msg (be16At msg 6).toNat i

namespace Resolver

/-- A datagram on our port. Only the identification says that it belongs to the query. -/
def handle (msg : Bytes) (r : Resolver) : Resolver :=
  if msg.length < 12 || r.state ≠ .waiting then r
  else if be16At msg 0 ≠ r.queryId then r
  else if octet msg 2 &&& 0x80 = 0 then r
  else if octet msg 3 &&& 0x0F ≠ 0 then { r with state := .failed }
  else
    match answersAt msg with
    | .broken => r
    | .address ip => { r with result := ip.toU32, state := .answered }
    | .none => { r with state := .failed }

/-- `udp::handle`, for the one listener that matters here. -/
def receive (body : Bytes) (r : Resolver) : Resolver :=
  let len := (be16At body 4).toNat
  if body.length < 8 || len < 8 || len > body.length then r
  else if be16At body 2 ≠ r.localPort then r
  else r.handle (slice body 8 len)

/-! ## What a call can do to a lookup -/

theorem sendQuery_state (now : UInt64) (r : Resolver) :
    (r.sendQuery now).queryId = r.queryId ∧ (r.sendQuery now).result = r.result ∧
      ((r.sendQuery now).state = r.state ∨ (r.sendQuery now).state = .failed) := by
  unfold sendQuery
  dsimp only
  split
  · exact ⟨rfl, rfl, .inr rfl⟩
  · exact ⟨rfl, rfl, .inl rfl⟩

theorem start_state {now : UInt64} {name : Bytes} {r : Resolver} (accepted : (r.start now name).1 = true) :
    (r.start now name).2.state = .waiting ∨ (r.start now name).2.state = .failed := by
  unfold start at accepted ⊢
  split at accepted
  · cases accepted
  split at accepted
  · cases accepted
  rename_i named there
  rw [if_neg named, if_neg there]
  exact (sendQuery_state now _).2.2

theorem start_refused {now : UInt64} {name : Bytes} {r : Resolver} (refused : (r.start now name).1 = false) :
    (r.start now name).2 = r := by
  unfold start at refused ⊢
  split
  · rfl
  rename_i named
  split
  · rfl
  rename_i there
  rw [if_neg named, if_neg there] at refused
  cases refused

theorem tick_state (now : UInt64) (r : Resolver) : (r.tick now).queryId = r.queryId ∧ (r.tick now).result = r.result ∧
      ((r.tick now).state = r.state ∨ r.state = .waiting ∧ (r.tick now).state = .failed) := by
  unfold tick
  split
  · exact ⟨rfl, rfl, .inl rfl⟩
  rename_i waiting
  have waiting : r.state = .waiting := by simpa using waiting
  split
  · exact ⟨rfl, rfl, .inl rfl⟩
  dsimp only
  split
  · exact ⟨rfl, rfl, .inr ⟨waiting, rfl⟩⟩
  obtain ⟨id, result, same | failed⟩ := sendQuery_state now { r with attempts := r.attempts + 1 }
  · exact ⟨id, result, .inl same⟩
  · exact ⟨id, result, .inr ⟨waiting, failed⟩⟩

theorem handle_state (msg : Bytes) (r : Resolver) :
    r.handle msg = r ∨ r.state = .waiting ∧ 12 ≤ msg.length ∧ be16At msg 0 = r.queryId ∧
      (r.handle msg).queryId = r.queryId ∧ ((r.handle msg).state = .failed ∨ (r.handle msg).state = .answered) := by
  unfold handle
  split
  · exact .inl rfl
  rename_i long
  simp only [Bool.or_eq_true, decide_eq_true_eq, not_or, Nat.not_lt, not_not] at long
  split
  · exact .inl rfl
  rename_i ours
  have ours : be16At msg 0 = r.queryId := by simpa using ours
  split
  · exact .inl rfl
  split
  · exact .inr ⟨long.2, long.1, ours, rfl, .inl rfl⟩
  split
  · exact .inl rfl
  · exact .inr ⟨long.2, long.1, ours, rfl, .inr rfl⟩
  · exact .inr ⟨long.2, long.1, ours, rfl, .inl rfl⟩

/-- A datagram settles a lookup, if it bears its identification. -/
theorem receive_state (body : Bytes) (r : Resolver) :
    r.receive body = r ∨ r.state = .waiting ∧ be16At body 8 = r.queryId ∧ (r.receive body).queryId = r.queryId ∧
        ((r.receive body).state = .failed ∨ (r.receive body).state = .answered) := by
  unfold receive
  dsimp only
  split
  · exact .inl rfl
  split
  · exact .inl rfl
  rcases handle_state (slice body 8 (be16At body 4).toNat) r with same | ⟨waiting, long, ours, id, settled⟩
  · exact .inl same
  refine .inr ⟨waiting, ?_, id, settled⟩
  rw [← ours]
  have reach : (slice body 8 (be16At body 4).toNat).length ≤ (be16At body 4).toNat - 8 := by
    simp only [slice, List.length_take]
    omega
  have inside : 8 + 0 + 1 < (be16At body 4).toNat := by omega
  rw [be16At_slice body 8 inside]

end Resolver

end BarryOS.Net.Dns
