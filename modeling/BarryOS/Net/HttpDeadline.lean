import BarryOS.Crypto.TlsEnds
import BarryOS.Crypto.TlsTrust
import BarryOS.Net.HttpRedirect

/-!
# How long a fetch takes

`tick` starts a stopwatch for a hop the first time it gets past its `match`, and fails the fetch
when it has run for twenty seconds. A redirect starts it over, and there are at most five. While
an https hop is connecting `tick` returns before it looks at the stopwatch, so that the time until
the handshake is over is up to DNS, to the next hop and to the server: to when the lookup fails, the
SYN is given up, or the server resets or closes the connection (`Decided`).
-/

namespace BarryOS.Net.Http

open Lib Stack

/-! ## Time -/

/-- The time of the last tick. -/
def Call.clock (t : Nat) (c : Call) : Nat :=
  match c.event with
  | .tick => c.env.tcp.now.toNat
  | _ => t

/-- No other fetch is started. -/
def Call.continues (c : Call) : Bool :=
  match c.event with
  | .start _ => false
  | _ => true

def Call.isTick (c : Call) : Bool :=
  match c.event with
  | .tick => true
  | _ => false

/-- The timer advances, and there is a tick at least every `gap` of its ticks. -/
def Ticking (gap : Nat) : Nat → List Call → Prop :=
  Along Call.clock fun t c => c.continues = true ∧ t ≤ c.clock t ∧ c.clock t ≤ t + gap

def lastTick : Nat → List Call → Nat := run Call.clock

/-- It has been decided what becomes of the handshake of an https hop: the lookup it waits for has
failed, or no address is waiting to be connected to and the connection is over. -/
def Decided (s : Stack) : Prop :=
  s.session.tls.phase = .connecting ∧ s.dns.state = .failed ∨ s.dns.state ≠ .answered ∧ Crypto.Ended s.tcp

instance (s : Stack) : Decidable (Decided s) := inferInstanceAs (Decidable (_ ∨ _))

/-- DNS, the next hop and the server decide it within `limit`: a later tick that still finds the hop
connecting finds it decided. -/
def Answers (limit : Nat) (s : Stack) (c : Call) : Prop :=
  c.isTick = true → s.http.phase = .connecting → s.http.useTls = true →
    s.hop.began.toNat + limit < c.env.tcp.now.toNat → Decided s

instance (limit : Nat) (s : Stack) (c : Call) : Decidable (Answers limit s c) :=
  inferInstanceAs (Decidable (_ → _ → _ → _ → _))

/-! ## The stopwatch -/

/-- What the stopwatch of a hop that began at `h` can show at time `t`: nothing yet, nothing
because the timer was at zero when it was started, or when it was started. -/
inductive OnTime (limit gap h t : Nat) (deadline : UInt32) : Prop where
  | unset (off : deadline = 0) (early : t ≤ h + limit + 2 * gap)
  | zero (off : deadline = 0) (wrapped : t % 4294967296 = 0) (early : t ≤ h + limit + 3 * gap)
  | running (x : Nat) (on : deadline ≠ 0) (set : deadline.toNat = x % 4294967296) (past : x ≤ t)
      (early : x ≤ h + limit + 4 * gap) (left : t ≤ x + 2000)

/-- The longest a hop can take. -/
def hopTime (limit gap : Nat) : Nat := limit + 5 * gap + 2000

variable {deadline : UInt32}

theorem OnTime.within {limit gap h t : Nat} (on : OnTime limit gap h t deadline) : t + gap ≤ h + hopTime limit gap := by
  unfold hopTime
  rcases on with ⟨-, early⟩ | ⟨-, -, early⟩ | ⟨x, -, -, -, early, left⟩
  · omega
  · omega
  · omega

theorem low_bits (now : UInt64) : now.toUInt32.toNat = now.toNat % 4294967296 := UInt64.toNat_toUInt32 now

/-- The stopwatch is off: the check starts it. -/
theorem OnTime.start {limit gap h t : Nat} {now : UInt64} (on : OnTime limit gap h t 0)
    (small : gap < 4294967296) (later : t ≤ now.toNat) (soon : now.toNat ≤ t + gap) :
    OnTime limit gap h now.toNat now.toUInt32 := by
  have value := low_bits now
  by_cases zero : now.toUInt32 = 0
  · have wrapped : now.toNat % 4294967296 = 0 := by
      rw [← value, zero]
      rfl
    refine .zero zero wrapped ?_
    rcases on with ⟨-, early⟩ | ⟨-, before, early⟩ | ⟨_, on, -⟩
    · omega
    · omega
    · exact absurd rfl on
  · refine .running now.toNat zero value le_rfl ?_ (Nat.le_add_right _ _)
    rcases on with ⟨-, early⟩ | ⟨-, -, early⟩ | ⟨_, on, -⟩
    · omega
    · omega
    · exact absurd rfl on

/-- The stopwatch is on, and has not run out. -/
theorem OnTime.check {limit gap h t : Nat} {now : UInt64} (on : OnTime limit gap h t deadline)
    (small : gap + 2000 < 4294967296) (set : deadline ≠ 0) (later : t ≤ now.toNat) (soon : now.toNat ≤ t + gap)
    (left : ¬ now.toUInt32 - deadline > deadlineTicks) : OnTime limit gap h now.toNat deadline := by
  rcases on with ⟨off, -⟩ | ⟨off, -, -⟩ | ⟨x, -, value, past, early, late⟩
  · exact absurd off set
  · exact absurd off set
  · refine .running x set value (Nat.le_trans past later) early ?_
    have elapsed : (now.toUInt32 - deadline).toNat ≤ 2000 := by
      have := UInt32.not_lt.mp left
      exact UInt32.le_iff_toNat_le.mp this
    rw [UInt32.toNat_sub, low_bits] at elapsed
    omega

/-! ## A new hop -/

variable (P : Crypto.Primitives) (env : Env)

/-- A new hop. -/
structure Begins (hops : UInt8) (t : Stack) : Prop where
  deadline : t.http.deadlineTick = 0
  hops : t.http.hops = hops
  began : t.hop.began = env.tcp.now
  resolving : t.http.phase = .resolving → t.http.useTls = false
  busy : t.http.phase ≠ .idle
  handshake : t.http.phase = .connecting → t.http.useTls = true → t.session.tls.phase = .connecting

theorem beginTls_handshake (t : Target) (s : Stack) (connecting : (s.beginTls P env t).2.http.phase = .connecting) :
    (s.beginTls P env t).2.session.tls.phase = .connecting := by
  have asked : ∀ (host : Bytes) (u : Stack), (u.askTls env host).session = u.session := by
    intro host u
    unfold askTls ask
    dsimp only
    split
    · split <;> rfl
    · rfl
  have started : ∀ (e : Crypto.Env) (tls : Crypto.Tls), (tls.start e t.host t.port).1 = true →
      (tls.start e t.host t.port).2.phase = .connecting := by
    intro e tls
    unfold Crypto.Tls.start
    dsimp only
    split
    · exact fun _ => rfl
    split
    · exact nofun
    · split
      · exact nofun
      · exact fun _ => rfl
  unfold beginTls at connecting ⊢
  dsimp only at connecting ⊢
  split at connecting
  next on =>
    rw [if_pos on]
    show (Stack.askTls env t.host _).session.tls.phase = .connecting
    rw [asked]
    exact started _ _ on
  · cases connecting

theorem begin_handshake (url : Bytes) (s : Stack) (connecting : (s.begin P env url).2.http.phase = .connecting)
    (tls : (s.begin P env url).2.http.useTls = true) : (s.begin P env url).2.session.tls.phase = .connecting := by
  obtain ⟨c, phase, error, aside, refused | ⟨t, found, rfl, -⟩⟩ := begin_began P env url s
  · rw [aside.http, refused.2.1] at connecting
    cases connecting
  rw [aside.http] at tls
  have on : (s.forget env url).http.useTls = true := tls
  unfold Stack.begin at connecting ⊢
  rw [found] at connecting ⊢
  dsimp only at connecting ⊢
  rw [if_pos on] at connecting ⊢
  exact beginTls_handshake P env t _ connecting

theorem Begins.begin (url : Bytes) (s : Stack) : Begins env s.http.hops (s.begin P env url).2 := by
  obtain ⟨c, phase, error, aside, ⟨rfl, rfl, -⟩ | ⟨t, -, rfl, reached⟩⟩ := begin_began P env url s
  · refine ⟨?_, ?_, congrArg Hop.began aside.hop, ?_, ?_, begin_handshake P env url s⟩
    all_goals rw [aside.http]
    · rfl
    · rfl
    · exact nofun
    · exact nofun
  · refine ⟨?_, ?_, congrArg Hop.began aside.hop, ?_, ?_, begin_handshake P env url s⟩
    all_goals rw [aside.http]
    · rfl
    · rfl
    · rcases reached with rfl | rfl | ⟨-, plain⟩
      · exact nofun
      · exact nofun
      · exact fun _ => plain
    · rcases reached with rfl | rfl | ⟨rfl, -⟩ <;> exact nofun

/-- A redirect ends the fetch, or begins another hop with one redirect less to go. -/
theorem followRedirect_cases (s : Stack) : (s.followRedirect P env).http.phase = .failed ∨
      (s.http.hops ≤ maxHops → s.http.hops < maxHops ∧ Begins env (s.http.hops + 1) (s.followRedirect P env)) := by
  unfold followRedirect
  dsimp only
  split
  · exact .inl rfl
  rename_i within
  split
  · exact .inl rfl
  rename_i url _
  refine .inr fun left => ⟨?_, Begins.begin P env url { s with
    http := { s.http with hops := s.http.hops + 1 }
    history := { s.history with redirects := s.history.redirects ++ [s.hop.fetch] } }⟩
  have room : s.http.hops.toNat + 1 ≤ 5 := by
    rw [← hops_succ left]
    exact UInt8.not_lt.mp within
  exact room

/-! ## The invariant -/

/-- How far the handshake of an https hop can be at time `t`. -/
def Greets (limit gap t : Nat) (s : Stack) : Prop :=
  s.session.tls.phase = .connecting ∧ t ≤ s.hop.began.toNat + limit ∨
    s.session.tls.phase = .handshaking ∧ t ≤ s.hop.began.toNat + limit + gap

/-- How far a fetch that began at `first` can be, `t` being the time of the last tick. -/
structure Timely (limit gap first t : Nat) (s : Stack) : Prop where
  busy : s.http.phase ≠ .idle
  watch : s.http.inProgress = true → OnTime limit gap s.hop.began.toNat t s.http.deadlineTick
  hops : s.http.inProgress = true → s.http.hops ≤ maxHops
  began : s.http.inProgress = true → s.hop.began.toNat ≤ first + s.http.hops.toNat * hopTime limit gap
  resolving : s.http.phase = .resolving → s.http.useTls = false
  connecting : s.http.phase = .connecting → s.http.useTls = true → s.http.deadlineTick = 0 ∧ Greets limit gap t s

section Step

variable {limit gap first t : Nat} {s u : Stack}

/-- Of a fetch that has ended it asks nothing. -/
theorem Timely.over (phase : u.http.phase = .done ∨ u.http.phase = .failed) : Timely limit gap first t u := by
  constructor
  all_goals rcases phase with h | h <;> simp [Client.inProgress, h]

theorem Timely.of_begins {hops : UInt8} (h : Begins env hops u) (few : hops ≤ maxHops)
    (early : env.tcp.now.toNat ≤ first + hops.toNat * hopTime limit gap) :
    Timely limit gap first env.tcp.now.toNat u where
  busy := h.busy
  watch := fun _ => .unset h.deadline (by rw [h.began]; omega)
  hops := fun _ => by rw [h.hops]; exact few
  began := fun _ => by rw [h.began, h.hops]; exact early
  resolving := h.resolving
  connecting := fun phase tls =>
    ⟨h.deadline, .inl ⟨h.handshake phase tls, by rw [h.began]; exact Nat.le_add_right _ _⟩⟩

/-- The hop goes on, and the stopwatch shows that there is time left. -/
theorem Timely.of_stays (h : Timely limit gap first t s) (active : s.http.inProgress = true) (stays : Stays s u)
    {t : Nat} (watch : OnTime limit gap s.hop.began.toNat t deadline)
    (connecting : u.http.phase = .connecting → u.http.useTls = true → deadline = 0 ∧ Greets limit gap t u) :
    Timely limit gap first t { u with http := { u.http with deadlineTick := deadline } } := by
  obtain ⟨tls, hops, hop⟩ := stays.same
  refine ⟨stays.busy h.busy, fun _ => ?_, fun _ => ?_, fun _ => ?_, ?_, connecting⟩
  · rw [hop]
    exact watch
  · rw [hops]
    exact h.hops active
  · rw [hop, hops]
    exact h.began active
  · intro phase
    rw [tls]
    exact h.resolving (stays.resolving phase)

theorem inProgress_cases {c : Client} (busy : c.phase ≠ .idle) (ended : ¬ c.inProgress = true) :
    c.phase = .done ∨ c.phase = .failed := by
  cases phase : c.phase with
  | idle => exact absurd phase busy
  | done => exact .inl rfl
  | failed => exact .inr rfl
  | resolving | connecting | sending | receiving => exact absurd (by simp [Client.inProgress, phase]) ended

/-- The arms that get as far as the stopwatch. -/
theorem Timely.checkDeadline (h : Timely limit gap first t s) (active : s.http.inProgress = true) (stays : Stays s u)
    (plain : u.http.phase = .connecting → u.http.useTls = false) (small : gap + 2000 < 4294967296)
    (later : t ≤ env.tcp.now.toNat) (soon : env.tcp.now.toNat ≤ t + gap) :
    Timely limit gap first env.tcp.now.toNat (u.checkDeadline env) := by
  have watch := h.watch active
  rw [← stays.deadline] at watch
  have secure : ∀ deadline : UInt32, u.http.phase = .connecting → u.http.useTls = true →
      deadline = 0 ∧ Greets limit gap env.tcp.now.toNat u := by
    intro deadline phase tls
    rw [plain phase] at tls
    cases tls
  unfold Stack.checkDeadline
  split
  next ended => exact .over (inProgress_cases (stays.busy h.busy) (by simpa using ended))
  dsimp only
  split
  next off =>
    rw [off] at watch
    exact h.of_stays active stays (watch.start (by omega) later soon) (secure _)
  rename_i on
  split
  · exact .over (.inr rfl)
  next left => exact h.of_stays active stays (watch.check small on later soon left) (secure _)

theorem tickTls_session (s : Stack) : (s.tickTls P env).session = s.session.tick P (s.tlsEnv env []) := by
  unfold tickTls
  split
  · rfl
  · split <;> rfl

/-- A tick of TLS that leaves an https hop connecting leaves the handshake under way. -/
theorem tick_opening (opening : s.session.tls.phase = .connecting ∨ s.session.tls.phase = .handshaking)
    (still : (s.tickConnectingTls P env).http.phase = .connecting) :
    (s.session.tick P (s.tlsEnv env [])).tls.phase = .connecting ∨
      (s.session.tick P (s.tlsEnv env [])).tls.phase = .handshaking := by
  unfold tickConnectingTls at still
  dsimp only at still
  rw [tickTls_session] at still
  rcases opening with connecting | handshaking
  · rcases Crypto.Session.tick_connecting P (s.tlsEnv env []) connecting with waits | greets | failed
    · exact .inl waits
    · exact .inr greets
    · rw [failed] at still
      cases still
  · have started : (s.session.tick P (s.tlsEnv env [])).tls.phase ≠ .idle :=
      Crypto.Session.tick_past P _ (.inl rfl) (handshaking.trans_ne nofun) (handshaking.trans_ne nofun)
    cases after : (s.session.tick P (s.tlsEnv env [])).tls.phase with
    | idle => exact absurd after started
    | connecting => exact .inl rfl
    | handshaking => exact .inr rfl
    | established | failed | closed =>
      rw [after] at still
      cases still

theorem Decided.hurries (decided : Decided s) (connecting : s.session.tls.phase = .connecting) :
    (s.session.tick P (s.tlsEnv env [])).tls.phase ≠ .connecting := by
  refine Crypto.Session.tick_hurried P _ connecting ?_
  unfold tlsEnv
  rcases decided with ⟨-, failed⟩ | ⟨unanswered, ended⟩
  · rw [failed]
    exact .inl rfl
  · cases state : s.dns.state with
    | answered => exact absurd state unanswered
    | failed => exact .inl rfl
    | idle | waiting => exact .inr ⟨rfl, ended⟩

/-- Once it has been decided, such a tick can only have gone from the lookup and the SYN to the
ClientHello. -/
theorem tickConnectingTls_greets
    (opening : s.session.tls.phase = .connecting ∨ s.session.tls.phase = .handshaking)
    (still : (s.tickConnectingTls P env).http.phase = .connecting) :
    ((s.tickConnectingTls P env).session.tls.phase = .connecting ∨
        (s.tickConnectingTls P env).session.tls.phase = .handshaking) ∧
      (Decided s → s.session.tls.phase = .connecting ∧
        (s.tickConnectingTls P env).session.tls.phase = .handshaking) := by
  have same : (s.tickConnectingTls P env).session = s.session.tick P (s.tlsEnv env []) := by
    rw [← tickTls_session]
    unfold tickConnectingTls
    dsimp only
    split <;> rfl
  have on := tick_opening P env opening still
  rw [same]
  refine ⟨on, fun decided => ?_⟩
  rcases opening with connecting | handshaking
  · exact ⟨connecting, on.resolve_left (decided.hurries P env connecting)⟩
  · rcases decided with ⟨connecting, -⟩ | ⟨-, ended⟩
    · cases handshaking.symm.trans connecting
    rcases on with connecting | still
    · exact absurd connecting (Crypto.Session.tick_busy P _ (handshaking.trans_ne nofun))
    · exact absurd still (Crypto.Session.tick_dead P _ handshaking ended)

/-- An https hop that is connecting: no stopwatch, but the handshake has its time. -/
theorem Timely.tickConnectingTls (h : Timely limit gap first t s) (phase : s.http.phase = .connecting)
    (tls : s.http.useTls = true) (answers : s.hop.began.toNat + limit < env.tcp.now.toNat → Decided s)
    (soon : env.tcp.now.toNat ≤ t + gap) :
    Timely limit gap first env.tcp.now.toNat (s.tickConnectingTls P env) := by
  have stays := (Goes.tickConnectingTls P env s).toStays
  obtain ⟨off, greets⟩ := h.connecting phase tls
  have active : s.http.inProgress = true := by simp [Client.inProgress, phase]
  have opening : s.session.tls.phase = .connecting ∨ s.session.tls.phase = .handshaking := greets.imp And.left And.left
  have early : env.tcp.now.toNat ≤ s.hop.began.toNat + limit + 2 * gap := by
    rcases greets with ⟨-, early⟩ | ⟨-, early⟩ <;> omega
  have watch : OnTime limit gap s.hop.began.toNat env.tcp.now.toNat 0 := .unset rfl early
  have next := h.of_stays active stays watch fun still _ => by
    obtain ⟨on, decided⟩ := tickConnectingTls_greets P env opening still
    refine ⟨rfl, ?_⟩
    unfold Greets
    rw [stays.same.2.2]
    by_cases late : s.hop.began.toNat + limit < env.tcp.now.toNat
    · obtain ⟨connecting, greeted⟩ := decided (answers late)
      refine .inr ⟨greeted, ?_⟩
      rcases greets with ⟨-, early⟩ | ⟨handshaking, -⟩
      · omega
      · cases connecting.symm.trans handshaking
    · exact on.imp (fun waits => ⟨waits, by omega⟩) fun greeted => ⟨greeted, by omega⟩
  rwa [← stays.deadline.trans off] at next

theorem Timely.tickHttp (h : Timely limit gap first t s) (small : gap + 2000 < 4294967296)
    (answers : s.http.phase = .connecting → s.http.useTls = true →
      s.hop.began.toNat + limit < env.tcp.now.toNat → Decided s)
    (later : t ≤ env.tcp.now.toNat) (soon : env.tcp.now.toNat ≤ t + gap) :
    Timely limit gap first env.tcp.now.toNat (s.tickHttp P env) := by
  by_cases secure : s.http.phase = .connecting ∧ s.http.useTls = true
  · obtain ⟨phase, tls⟩ := secure
    have returned : s.tickHttp P env = s.tickConnectingTls P env := by
      unfold Stack.tickHttp
      rw [phase]
      exact if_pos tls
    rw [returned]
    exact h.tickConnectingTls P env phase tls (answers phase tls) soon
  obtain ⟨u, goes, idle, result⟩ := tickHttp_cases P env s
  have stays := goes.toStays
  by_cases active : s.http.inProgress = true
  · rcases result with ⟨plain, checked⟩ | ⟨-, followed⟩ | ⟨done | connecting, returned⟩
    · rw [checked]
      refine h.checkDeadline env active stays (fun connecting => stays.same.1.trans ?_) small later soon
      exact (stays.connecting connecting).elim plain h.resolving
    · rw [followed]
      rcases followRedirect_cases P env u with failed | follows
      · exact .over (.inr failed)
      have few := h.hops active
      rw [stays.same.2.1] at follows
      obtain ⟨room, begins⟩ := follows few
      have next := hops_succ few
      refine .of_begins env begins ?_ ?_
      · have : (s.http.hops + 1).toNat ≤ 5 := by
          rw [next]
          exact room
        exact this
      · have began := h.began active
        have within := (h.watch active).within
        rw [next, Nat.add_mul]
        omega
    · rw [returned]
      exact .over (.inl done)
    · exact absurd connecting secure
  · have ended : s.http.phase = .done ∨ s.http.phase = .failed := inProgress_cases h.busy active
    rw [Bool.not_eq_true] at active
    obtain rfl := idle active
    rcases result with ⟨-, checked⟩ | ⟨phase, -⟩ | ⟨-, returned⟩
    · rw [checked, Stack.checkDeadline, if_pos (by simp [active])]
      exact .over ended
    · simp [phase] at ended
    · rw [returned]
      exact .over ended

theorem Timely.of_http (h : Timely limit gap first t s) (http : u.http = s.http) (hop : u.hop = s.hop)
    (tls : u.session.tls.phase = s.session.tls.phase) : Timely limit gap first t u := by
  constructor
  all_goals simp only [Greets, http, hop, tls]
  exacts [h.busy, h.watch, h.hops, h.began, h.resolving, h.connecting]

theorem receive_handshake (frame : Bytes) (s : Stack) :
    (s.receive P env frame).session.tls.phase = s.session.tls.phase := by
  unfold receive
  split
  · rfl
  split
  · rfl
  · split <;> rfl

/-- What has been decided is so after the tick of DNS and TCP. -/
theorem Decided.ready (h : Decided s) :
    Decided (({ s with dns := s.dns.tick env.tcp.now }).transport P env .tick) := by
  have unanswered : s.dns.state ≠ .answered → (s.dns.tick env.tcp.now).state ≠ .answered := by
    intro unanswered
    unfold Dns.Resolver.tick Dns.Resolver.sendQuery
    dsimp only
    split
    · exact unanswered
    split
    · exact unanswered
    split
    · exact nofun
    · split
      · exact nofun
      · exact unanswered
  rcases h with ⟨connecting, failed⟩ | ⟨dns, ended⟩
  · refine .inl ⟨connecting, ?_⟩
    show (s.dns.tick env.tcp.now).state = .failed
    rw [Dns.Resolver.tick, if_pos (by simp [failed])]
    exact failed
  · exact .inr ⟨unanswered dns, ended.tick⟩

theorem Timely.step {c : Call} (h : Timely limit gap first t s) (small : gap + 2000 < 4294967296)
    (answers : Answers limit s c) (continues : c.continues = true) (later : t ≤ c.clock t)
    (soon : c.clock t ≤ t + gap) :
    Timely limit gap first (c.clock t) (s.step P c) := by
  obtain ⟨env, event⟩ := c
  cases event with
  | start url => cases continues
  | frame octets =>
    exact h.of_http (receive_aside P env octets s).http (receive_aside P env octets s).hop
      (receive_handshake P env octets s)
  | tick =>
    have ready : Timely limit gap first t (({ s with dns := s.dns.tick env.tcp.now }).transport P env .tick) :=
      h.of_http rfl rfl rfl
    exact ready.tickHttp P env small (fun phase tls late => (answers rfl phase tls late).ready P env) later soon
  | lookup name => exact h.of_http rfl rfl rfl
  | take => exact h.of_http rfl rfl rfl
  | server ip => exact h.of_http rfl rfl rfl

theorem Timely.run {calls : List Call} (h : Timely limit gap first t s) (small : gap + 2000 < 4294967296)
    (ticking : Ticking gap t calls) (answers : Along (Stack.step P) (Answers limit) s calls) :
    Timely limit gap first (lastTick t calls) (run (Stack.step P) s calls) := by
  induction calls generalizing s t with
  | nil => exact h
  | cons c calls ih =>
    obtain ⟨⟨continues, later, soon⟩, ticking⟩ := ticking
    exact ih (h.step P small answers.1 continues later soon) ticking answers.2

end Step

/-- Nothing goes out: the next hop does not answer ARP. -/
def silentEnv (now : UInt64) : Env := ⟨⟨now, 0, 0, ⟨10, 0, 2, 15⟩, fun _ => false⟩, fun _ _ => 0, fun _ => false⟩

structure Stuck (s : Stack) : Prop where
  phase : s.http.phase = .connecting
  tls : s.http.useTls = true
  handshake : s.session.tls.phase = .connecting
  syn : s.tcp.state = .synSent
  dns : s.dns.state = .idle

theorem silent_syn {tcp : Tcp.Tcb} {now : UInt64} (syn : tcp.state = .synSent) :
    (tcp.tick (silentEnv now).tcp).state = .synSent := by
  unfold Tcp.Tcb.tick
  split
  · exact syn
  split
  · exact syn
  · exact syn

/-- There is no answer yet, neither from DNS nor from the host. -/
theorem tickConnecting_waiting {e : Crypto.Env} {tls : Crypto.Tls} (pending : e.dns = .pending)
    (syn : (tls.tickTcp e).tcp.state = .synSent) : tls.tickConnecting P e = tls.tickTcp e := by
  have looked : (tls.tickTcp e).tickDns e = tls.tickTcp e := by
    unfold Crypto.Tls.tickDns
    rw [pending]
  unfold Crypto.Tls.tickConnecting
  rw [looked, if_neg (by simp [syn]), if_neg (by simp [syn])]

section

variable {s : Stack} (h : Stuck s) (now : UInt64)

include h

theorem Stuck.tickTcp : Stuck (s.transport P (silentEnv now) .tick) :=
  ⟨h.phase, h.tls, h.handshake, silent_syn h.syn, h.dns⟩

theorem Stuck.tickTls : Stuck (s.tickTls P (silentEnv now)) := by
  have waiting : (s.tlsEnv (silentEnv now) []).dns = .pending := by
    unfold tlsEnv
    rw [h.dns]
  have ticked : (s.session.tick P (s.tlsEnv (silentEnv now) [])).tls =
      s.session.tls.tickTcp (s.tlsEnv (silentEnv now) []) := by
    unfold Crypto.Session.tick
    rw [h.handshake]
    exact tickConnecting_waiting P waiting (silent_syn h.syn)
  unfold Stack.tickTls
  rw [if_neg (by simp [h.handshake]), h.dns]
  refine ⟨h.phase, h.tls, ?_, ?_, h.dns⟩
  · show (s.session.tick P _).tls.phase = _
    rw [ticked]
    exact h.handshake
  · show (s.session.tick P _).tls.tcp.state = _
    rw [ticked]
    exact silent_syn h.syn

theorem Stuck.tickHttp : Stuck (s.tickHttp P (silentEnv now)) := by
  have ticked := h.tickTls P now
  unfold Stack.tickHttp
  rw [h.phase]
  rw [if_pos h.tls]
  unfold tickConnectingTls
  dsimp only
  rw [ticked.handshake]
  exact ticked

theorem Stuck.tick : Stuck (s.tick P (silentEnv now)) := by
  have looked : (s.dns.tick now).state = .idle := by
    rw [Dns.Resolver.tick, if_pos (by simp [h.dns])]
    exact h.dns
  have asked : Stuck { s with dns := s.dns.tick now } := ⟨h.phase, h.tls, h.handshake, h.syn, looked⟩
  exact (asked.tickTcp P now).tickHttp P now

end

/-- A tick at every tick of the timer, from `t` on. -/
def silentTicks : Nat → Nat → List Call
  | 0, _ => []
  | n + 1, t => ⟨silentEnv (UInt64.ofNat (t + 1)), .tick⟩ :: silentTicks n (t + 1)

theorem Stuck.run {s : Stack} (h : Stuck s) (n t : Nat) : Stuck (run (step P) s (silentTicks n t)) := by
  induction n generalizing s t with
  | zero => exact h
  | succ n ih => exact ih (h.tick P _) (t + 1)

end BarryOS.Net.Http
