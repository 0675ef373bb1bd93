import BarryOS.Net.HttpFields
import BarryOS.Net.HttpRequest
import BarryOS.Net.TcpAccept
import BarryOS.Net.TcpPending

/-!
# When a fetch is done

A fetch is done when as many octets of the body are there as Content-Length says, or when the server has
closed the connection. What `read_body` gives then is all that has arrived behind the head. Neither a
connection that ends too early nor octets too many are noticed, and the length is not known if its line is
the last one. From a server that sends what it promises and closes behind it, in a head whose length is
read, a fetch that is done has the whole body (`complete_of_served`).
-/

namespace BarryOS.Net.Http

open Lib List

namespace Stack

/-- What is in the receive buffer. -/
def received (s : Stack) : Bytes := if s.http.useTls then s.session.tls.rx else s.tcp.pending

/-- `body_truncated`. -/
def bodyTruncated (s : Stack) : Bool := if s.http.useTls then s.session.tls.rxTruncated else s.tcp.rxTruncated

theorem rxReadAt_received (offset len : Nat) (s : Stack) :
    s.rxReadAt offset len = (s.received.drop offset).take len := by
  unfold rxReadAt received
  split
  · rfl
  · exact s.tcp.rxReadAt_pending offset len

end Stack

variable (P : Crypto.Primitives) (env : Env)

/-- A tick reports that the fetch is done. The whole head has arrived and `got` behind it; what there was
at the ticks before was some part of that. -/
structure Finishes (head : Head) (got : Bytes) (s : Stack) : Prop where
  receiving : s.http.phase = .receiving
  fits : head.octets.length ≤ headerScan
  read : ∃ (c : Client) (seen : List Bytes), c.headersParsed = false ∧ c.bodyDeclared = 0 ∧
    (∀ arrived ∈ seen, arrived <+: head.octets ++ got) ∧ s.http = c.reads seen
  arrived : (s.tickTransport P env).received = head.octets ++ got
  done : (s.tickReceiving P env).2.http.phase = .done

/-! ## What is there when it is done -/

theorem begin_not_done (url : Bytes) (s : Stack) : (s.begin P env url).2.http.phase ≠ .done := by
  obtain ⟨c, phase, error, aside, ⟨-, rfl, -⟩ | ⟨t, -, -, reached⟩⟩ := begin_began P env url s
  · rw [aside.http]
    exact nofun
  · rw [aside.http]
    rcases reached with rfl | rfl | ⟨rfl, -⟩ <;> exact nofun

variable (s : Stack)

theorem followRedirect_not_done : (s.followRedirect P env).http.phase ≠ .done := by
  unfold Stack.followRedirect
  dsimp only
  split
  · exact nofun
  split
  · exact nofun
  · exact begin_not_done P env _ _

/-- The same octets in the same buffer. -/
structure SameBody (s t : Stack) : Prop where
  received : t.received = s.received
  truncated : t.bodyTruncated = s.bodyTruncated

theorem SameBody.trans {s t u : Stack} (first : SameBody s t) (second : SameBody t u) : SameBody s u :=
  ⟨second.received.trans first.received, second.truncated.trans first.truncated⟩

theorem readHeaders_kept : s.readHeaders.http.useTls = s.http.useTls ∧
    (s.readHeaders.http.phase = .done → s.http.phase = .done) := by
  unfold Stack.readHeaders
  split
  · exact ⟨rfl, id⟩
  obtain ⟨kept, phase⟩ := parseHeaders_kept (s.rxReadAt 0 headerScan) s.http
  simp only [Prod.mk.injEq] at kept
  refine ⟨kept.2.2, fun done => phase.elim (fun same => same.symm.trans done) fun failed => ?_⟩
  exact absurd (failed.symm.trans done) nofun

theorem readHeaders_transport : s.readHeaders.session = s.session ∧ s.readHeaders.tcp = s.tcp := by
  unfold Stack.readHeaders
  split <;> exact ⟨rfl, rfl⟩

theorem sameBody_readHeaders : SameBody s s.readHeaders := by
  obtain ⟨session, tcp⟩ := readHeaders_transport s
  exact ⟨by simp only [Stack.received, (readHeaders_kept s).1, session, tcp],
    by simp only [Stack.bodyTruncated, (readHeaders_kept s).1, session, tcp]⟩

theorem readHeaders_look : s.readHeaders.http = s.http.look s.received := by
  unfold Stack.readHeaders Client.look
  split
  · rfl
  · rw [Stack.rxReadAt_received, drop_zero]

/-- The head has been read when the fetch is done. -/
theorem Finishes.head_read {head : Head} {got : Bytes} {s : Stack} (h : Finishes P env head got s) :
    ∃ c : Client, c.bodyDeclared = 0 ∧ (s.tickTransport P env).readHeaders.http = head.read c := by
  obtain ⟨c, seen, unread, fresh, fronts, http⟩ := h.read
  have looked : (s.tickTransport P env).readHeaders.http = c.reads (seen ++ [head.octets ++ got]) := by
    rw [readHeaders_look, h.arrived, (tickTransport_aside P env s).http, http]
    simp only [Client.reads, foldl_append, foldl_cons, foldl_nil]
  have all : ∀ arrived ∈ seen ++ [head.octets ++ got], arrived <+: head.octets ++ got := by
    intro arrived inside
    rcases mem_append.mp inside with inside | inside
    · exact fronts arrived inside
    obtain rfl := mem_singleton.mp inside
    exact prefix_refl _
  refine ⟨c, fresh, looked.trans ((reads_head unread h.fits all).1 ?_)⟩
  exact ⟨_, mem_append_right _ (mem_singleton.mpr rfl), by rw [length_append]; exact Nat.le_add_right _ _⟩

theorem Head.read_bodyOffset {head : Head} (fits : head.octets.length ≤ headerScan) (c : Client) :
    (head.read c).bodyOffset.toNat = head.octets.length := by
  have small : headerScan = 8192 := rfl
  show (UInt32.ofNat head.octets.length).toNat = _
  rw [UInt32.toNat_ofNat', Nat.mod_eq_of_lt (by omega)]

/-- What the server does: it sends a body of the length that the head promises and nothing else, of which
`got` has arrived, and it ends the connection behind all of it. -/
structure Served (head : Head) (body got : Bytes) (s : Stack) : Prop where
  promised : head.contentLength = some body.length
  sends : got <+: body
  closes : s.transportDone = true → got = body

/-- Done means that the declared length is there or that the server has closed. -/
theorem Finishes.whole {head : Head} {body got : Bytes} {s : Stack} (h : Finishes P env head got s)
    (readable : head.LengthReadable) (served : Served head body got (s.tickTransport P env)) : got = body := by
  obtain ⟨c, fresh, read⟩ := h.head_read P env
  have declared : (head.read c).bodyDeclared.toNat = body.length := by
    refine (head.walked_declared fresh).mpr readable |>.trans ?_
    rw [served.promised]
    rfl
  have behind : (s.tickTransport P env).readHeaders.bodyLen = got.length := by
    have there : (s.tickTransport P env).readHeaders.rxLen = (head.octets ++ got).length := by
      rw [← h.arrived, ← (sameBody_readHeaders _).received]
      unfold Stack.rxLen Stack.received
      split
      · rfl
      · exact (Tcp.Tcb.pending_length _).symm
    rw [Stack.bodyLen, there, read, Head.read_bodyOffset h.fits, length_append, Nat.add_sub_cancel_left]
  have closed : (s.tickTransport P env).readHeaders.transportDone = (s.tickTransport P env).transportDone := by
    obtain ⟨session, tcp⟩ := readHeaders_transport (s.tickTransport P env)
    simp only [Stack.transportDone, (readHeaders_kept _).1, session, tcp]
  have done := h.done
  unfold Stack.tickReceiving at done
  dsimp only at done
  split at done
  · exact absurd done (followRedirect_not_done P env _)
  split at done
  next enough =>
    rw [Bool.and_eq_true, decide_eq_true_eq, behind, read, declared] at enough
    exact served.sends.eq_of_length_le (of_decide_eq_true enough.2)
  split at done
  next ended => exact served.closes (closed.symm.trans ended)
  · have before := (readHeaders_kept _).2 done
    rw [(tickTransport_aside P env s).http, h.receiving] at before
    cases before

end BarryOS.Net.Http
