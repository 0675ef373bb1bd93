import BarryOS.Lib.Run
import BarryOS.Net.DnsQuery

/-!
# Whose answer it is

What settles a lookup, over every sequence of calls and datagrams. `handle` does not look at the
sender, its port or the question section: any datagram with the 16-bit number of the query that
can be read settles it.
-/

namespace BarryOS.Net.Dns

open Lib

inductive Event where
  | setServer (ip : Ip)
  | start (now : UInt64) (name : Str)
  | tick (now : UInt64)
  | takeResult
  | datagram (src : Ip) (body : Bytes)

/-- The message in a UDP datagram. -/
def messageOf (body : Bytes) : Bytes := slice body 8 (be16At body 4).toNat

namespace Resolver

/-- `init`: the port that answers come to. -/
def boot (port : UInt16) : Resolver := { localPort := port }

def step (r : Resolver) : Event → Resolver
  | .setServer ip => { r with server := ip.toU32 }
  | .start now name => (r.start now name.bytes).2
  | .tick now => r.tick now
  | .takeResult => r.takeResult.2
  | .datagram _ body => r.receive body

/-- A response of the server to the query: from its address and port, with the number of the query and
with the one question that was asked. -/
structure Genuine (r : Resolver) (src : Ip) (body : Bytes) : Prop where
  server : src.toU32 = r.server
  port : be16At body 0 = 53
  ours : be16At (messageOf body) 0 = r.queryId
  response : octet (messageOf body) 2 &&& 0x80 ≠ 0
  single : be16At (messageOf body) 4 = 1
  question : (slice (messageOf body) 12 (12 + (questionFor r.name).length)).map lower = questionFor r.name

/-- A datagram settles the lookup only if it is a response of the server. -/
def Attributed (r : Resolver) : Event → Prop
  | .datagram src body => r.state = .waiting → (r.receive body).state ≠ .waiting → r.Genuine src body
  | _ => True

/-- The datagram is for the port of the client. -/
def Delivered (r : Resolver) (body : Bytes) : Prop :=
  8 ≤ (be16At body 4).toNat ∧ (be16At body 4).toNat ≤ body.length ∧ be16At body 2 = r.localPort

/-- A response with the number of the query, with an error or with answers that can be read. -/
def Readable (r : Resolver) (msg : Bytes) : Prop :=
  12 ≤ msg.length ∧ be16At msg 0 = r.queryId ∧ octet msg 2 &&& 0x80 ≠ 0 ∧
    (octet msg 3 &&& 0x0F ≠ 0 ∨ answersAt msg ≠ .broken)

/-- Nobody but the server sends what could be an answer. -/
def Unforged (r : Resolver) : Event → Prop
  | .datagram src body => r.state = .waiting → r.Delivered body → r.Readable (messageOf body) → r.Genuine src body
  | _ => True

theorem handle_settles {r : Resolver} (waiting : r.state = .waiting) (msg : Bytes) :
    (r.handle msg).state ≠ .waiting ↔ r.Readable msg := by
  unfold handle Readable
  by_cases long : 12 ≤ msg.length
  · rw [if_neg (by simp [waiting, long])]
    by_cases ours : be16At msg 0 = r.queryId
    · rw [if_neg (fun other => other ours)]
      by_cases query : octet msg 2 &&& 0x80 = 0
      · rw [if_pos query]
        simp [waiting, query]
      by_cases error : octet msg 3 &&& 0x0F ≠ 0
      · rw [if_pos error]
        simp [long, ours, query, error]
      cases found : answersAt msg <;> simp [long, ours, query, error, waiting]
    · rw [if_pos ours]
      simp [waiting, ours]
  · rw [if_pos (by simp only [Bool.or_eq_true, decide_eq_true_eq]; omega)]
    simp [waiting, long]

theorem receive_settles {r : Resolver} (waiting : r.state = .waiting) (body : Bytes) :
    (r.receive body).state ≠ .waiting ↔ r.Delivered body ∧ r.Readable (messageOf body) := by
  unfold receive
  dsimp only
  split
  next cut =>
    simp only [Bool.or_eq_true, decide_eq_true_eq] at cut
    refine iff_of_false (fun settled => settled waiting) ?_
    rintro ⟨⟨long, whole, -⟩, -⟩
    omega
  next whole =>
    simp only [Bool.or_eq_true, decide_eq_true_eq] at whole
    split
    next other => exact iff_of_false (fun settled => settled waiting) fun both => other both.1.2.2
    rename_i ours
    rw [handle_settles waiting]
    exact ⟨fun readable => ⟨⟨by omega, by omega, not_not.mp ours⟩, readable⟩, fun both => both.2⟩

/-- In every run a datagram settles a lookup only as the response of the server, exactly if nobody else
sends what could be one. -/
theorem attributed_iff (port : UInt16) (es : List Event) :
    Along step Attributed (boot port) es ↔ Along step Unforged (boot port) es := by
  refine along_congr (fun _ => True) (fun _ _ _ => trivial) (fun r e _ => ?_) trivial es
  cases e with
  | datagram src body =>
    refine forall_congr' fun waiting => ?_
    rw [receive_settles waiting, and_imp]
  | setServer ip => exact Iff.rfl
  | start now name => exact Iff.rfl
  | tick now => exact Iff.rfl
  | takeResult => exact Iff.rfl

/-- A datagram from 6.6.6.6, port 4660, that answers the first query without naming its question. -/
def forgedAnswer : Bytes :=
  be16 0x1234 ++ be16 50000 ++ be16 36 ++ be16 0 ++ be16 0x0101 ++
    [0x81, 0x80] ++ be16 0 ++ be16 1 ++ be16 0 ++ be16 0 ++
    [0] ++ be16 1 ++ be16 1 ++ zeros 4 ++ be16 4 ++ [6, 6, 6, 6] ++ [0]

/-- It settles the lookup. -/
theorem forged_answer_taken : ¬ ∀ (port : UInt16) (es : List Event), Along step Attributed (boot port) es := by
  intro always
  have attributed := (always 50000 [.setServer ⟨8, 8, 8, 8⟩, .start 0 (.letter 0),
    .datagram ⟨6, 6, 6, 6⟩ forgedAnswer]).2.2.1
  have genuine := attributed (by decide +kernel) (by decide +kernel)
  have server : Ip.toU32 ⟨6, 6, 6, 6⟩ = Ip.toU32 ⟨8, 8, 8, 8⟩ := genuine.server
  exact absurd server (by decide)

end Resolver

end BarryOS.Net.Dns
