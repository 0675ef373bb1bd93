import BarryOS.Crypto.Tls
import BarryOS.Net.Dns
import BarryOS.Net.HttpMessage

/-!
# The HTTP client and what it stands on (net/http.rs, net/mod.rs)

A fetch runs through four state machines whose statics are shared by everything in the
kernel: HTTP itself, TLS, TCP and DNS. `Stack` is all of them at once. The statics of
`http.rs` are the fields of `Client`; TLS and TCP are a `Crypto.Session`.

`net::poll` hands frames up and then calls `net::tick`; the terminal looks names up beside the
fetches. Those are the events of a run. Beside the state a `Stack` keeps a `History`: which
requests were handed to a transport, which redirects were followed, which names were asked for
and answered, and where the SYNs went. No function reads it. The serial log is left out.
-/

namespace BarryOS.Net.Http

open Lib

inductive Phase where
  | idle | resolving | connecting | sending | receiving | done | failed
  deriving DecidableEq, Repr

def maxHops : UInt8 := 5

/-- `DEADLINE_SECS * 100`. -/
def deadlineTicks : UInt32 := 20 * 100

structure Client where
  phase : Phase := .idle
  status : UInt16 := 0
  bodyOffset : UInt32 := 0
  bodyDeclared : UInt32 := 0
  headersParsed : Bool := false
  requestSent : Bool := false
  deadlineTick : UInt32 := 0
  /-- `REQ_BUF[..REQ_LEN]`. -/
  req : Bytes := []
  /-- `TARGET[..TARGET_LEN]`. -/
  target : Bytes := []
  port : UInt16 := 80
  error : UInt8 := 0
  redirect : Bool := false
  remote : UInt32 := 0
  useTls : Bool := false
  /-- `LOCATION[..LOCATION_LEN]`. -/
  location : Bytes := []
  hops : UInt8 := 0

/-- One call of `begin`: how many there were before, the call of `start` it belongs to, the host
of its URL and the time. -/
structure Hop where
  number : Nat := 0
  fetch : Nat := 0
  host : Bytes := []
  began : UInt64 := 0
  deriving DecidableEq

/-- A request handed to a transport: the call it was handed over by, what the transport answered,
whether TCP queued anything, and the counter of TLS before and after. -/
structure Request where
  hop : Hop
  call : Crypto.Op
  sent : Bool
  queued : Bool
  seq : UInt32
  seqAfter : UInt32

/-- Was it handed to TLS? -/
def Request.tls (r : Request) : Bool :=
  match r.call with
  | .send _ => true
  | _ => false

/-- What was handed over. -/
def Request.octets (r : Request) : Bytes :=
  match r.call with
  | .send data | .transport (.send data) => data
  | _ => []

/-- The lookup of a hop's host: which of all lookups it is, and its identification. -/
structure Query where
  hop : Hop
  lookup : Nat
  id : UInt16
  deriving DecidableEq

/-- An answer that DNS took: the lookup it was taken for, the identification it came with and the
address in it. -/
structure Answer where
  lookup : Nat
  id : UInt16
  ip : UInt32
  deriving DecidableEq

structure Syn where
  hop : Hop
  dest : UInt32
  deriving DecidableEq

/-- A hop that ended because a lookup had failed, and which lookup that was. -/
structure Refusal where
  hop : Hop
  lookup : Nat
  deriving DecidableEq

structure History where
  requests : List Request := []
  /-- The fetch of every redirect that was followed. -/
  redirects : List Nat := []
  /-- How many lookups there were, those of other programs included. -/
  lookups : Nat := 0
  queries : List Query := []
  answers : List Answer := []
  syns : List Syn := []
  refusals : List Refusal := []

structure Stack where
  http : Client := {}
  session : Crypto.Session := {}
  dns : Dns.Resolver := {}
  hop : Hop := {}
  history : History := {}

/-- The answers of the layers below during one call. -/
structure Env where
  tcp : Tcp.Env
  random : Nat → Nat → UInt8
  /-- `arp::lookup(ipv4::next_hop(ip)).is_some()`. -/
  reaches : Ip → Bool

namespace Client

/-- What `begin` starts from. -/
def cleared (tls : Bool) (c : Client) : Client :=
  { c with
    phase := .idle
    status := 0
    bodyOffset := 0
    bodyDeclared := 0
    headersParsed := false
    requestSent := false
    error := 0
    redirect := false
    location := []
    deadlineTick := 0
    useTls := tls }

def fail (code : UInt8) (c : Client) : Client := { c with error := code, phase := .failed }

/-- `in_progress`. -/
def inProgress (c : Client) : Bool :=
  c.phase = .resolving || c.phase = .connecting || c.phase = .sending || c.phase = .receiving

/-- `parse_headers`, over what has arrived. -/
def parseHeaders (all : Bytes) (c : Client) : Client :=
  if all.length < 12 then c
  else if !(ascii "HTTP/").isPrefixOf all then if octet all 0 ≠ 0x48 then c.fail 6 else c
  else
    let c := { c with status := (statusCode all).getD c.status }
    match findHeadersEnd all with
    | none => c
    | some stop =>
      let h := Headers.walk ⟨all.take stop, c.bodyDeclared, c.redirect, c.location⟩
      { c with
        headersParsed := true
        bodyOffset := UInt32.ofNat (stop + 4)
        bodyDeclared := h.declared
        redirect := h.redirect
        location := h.location }

end Client

namespace Stack

variable (P : Crypto.Primitives) (env : Env)

def tcp (s : Stack) : Tcp.Tcb := s.session.tls.tcp

/-- What TLS sees of the layers below, DNS among them. -/
def tlsEnv (host : Bytes) (s : Stack) : Crypto.Env where
  tcp := env.tcp
  random := env.random
  dns :=
    match s.dns.state with
    | .answered => .resolved (some (Ip.ofU32 s.dns.result))
    | .failed => .failed
    | _ => .pending
  dnsServer := s.dns.server ≠ 0
  dnsStarts := (s.dns.start env.tcp.now host).1

/-! ## Calls into the layers below -/

/-- A call into TLS or TCP. -/
def call (c : Crypto.Call) (s : Stack) : Stack :=
  let σ := s.session.step P c
  { s with
    session := σ
    history := { s.history with
      syns := s.history.syns ++ (σ.tls.tcp.syns.drop s.tcp.syns.length).map fun dest => ⟨s.hop, dest⟩ } }

def transport (op : Tcp.Op) (s : Stack) : Stack := s.call P ⟨s.tlsEnv env [], .transport op⟩

/-- `tcp::reset`. -/
def resetTcp (s : Stack) : Stack :=
  { s with session := { s.session with tls := { s.session.tls with tcp := s.tcp.reset } } }

/-- `begin_connect`. -/
def connect (ip : Ip) (s : Stack) : Stack := s.transport P env (.connect ip s.http.port)

/-- `dns::start`, for the current hop. -/
def ask (name : Bytes) (s : Stack) : Bool × Stack :=
  let r := s.dns.start env.tcp.now name
  if r.1 then
    (true, { s with
      dns := r.2
      history := { s.history with
        lookups := s.history.lookups + 1
        queries := s.history.queries ++ [⟨s.hop, s.history.lookups + 1, r.2.queryId⟩] } })
  else (false, s)

/-- `dns::start`, from another program. -/
def lookup (name : Bytes) (s : Stack) : Stack :=
  let r := s.dns.start env.tcp.now name
  { s with
    dns := r.2
    history := { s.history with lookups := if r.1 then s.history.lookups + 1 else s.history.lookups } }

/-- `tls::tick`; while it is connecting it looks at DNS. -/
def tickTls (s : Stack) : Stack :=
  let ticked := s.call P ⟨s.tlsEnv env [], .tick⟩
  if s.session.tls.phase ≠ .connecting then ticked
  else
    match s.dns.state with
    | .answered => { ticked with dns := s.dns.takeResult.2 }
    | .failed => { ticked with
        history := { ticked.history with refusals := ticked.history.refusals ++ [⟨s.hop, s.history.lookups⟩] } }
    | _ => ticked

/-- Whichever transport the fetch is using. -/
def tickTransport (s : Stack) : Stack :=
  if s.http.useTls then s.tickTls P env else s.transport P env .tick

def rxLen (s : Stack) : Nat := if s.http.useTls then s.session.tls.rx.length else s.tcp.rxLen

def rxReadAt (offset len : Nat) (s : Stack) : Bytes :=
  if s.http.useTls then (s.session.tls.rx.drop offset).take len else s.tcp.rxReadAt offset len

def bodyLen (s : Stack) : Nat := s.rxLen - s.http.bodyOffset.toNat

/-! ## Beginning a fetch -/

def fail (code : UInt8) (s : Stack) : Stack := { s with http := s.http.fail code }

def withPhase (phase : Phase) (s : Stack) : Stack := { s with http := { s.http with phase := phase } }

/-- What `tls::start` does to DNS: a name is asked for when there is a server to ask. -/
def askTls (host : Bytes) (s : Stack) : Stack :=
  if (Crypto.Tls.parseIp host).isNone && s.dns.server ≠ 0 then (s.ask env host).2 else s

/-- An https fetch is handed to the TLS client whole. -/
def beginTls (t : Target) (s : Stack) : Bool × Stack :=
  let s := s.withPhase .connecting
  let e := s.tlsEnv env t.host
  let started := (s.call P ⟨e, .start t.host t.port⟩).askTls env t.host
  if (s.session.tls.start e t.host t.port).1 then (true, started) else (false, started.fail 4)

/-- An address literal needs no lookup. -/
def beginPlain (t : Target) (s : Stack) : Bool × Stack :=
  match Crypto.Tls.parseIp t.host with
  | some ip => (true, (s.withPhase .connecting).connect P env ip)
  | none =>
    if s.dns.server = 0 then (false, s.fail 2)
    else
      let asked := (s.withPhase .resolving).ask env t.host
      if asked.1 then asked else (false, asked.2.fail 3)

/-- Nothing of the last hop is left. -/
def forget (url : Bytes) (s : Stack) : Stack :=
  { s.resetTcp with
    http := s.http.cleared (scheme url).2
    hop := ⟨s.hop.number + 1, s.hop.fetch, ((target url).map Target.host).getD [], env.tcp.now⟩ }

def aim (t : Target) (s : Stack) : Stack :=
  { s with http := { s.http with port := t.port, target := t.host, req := buildRequest t.host t.path } }

/-- Begin fetching `url`, keeping the redirect count. -/
def begin (url : Bytes) (s : Stack) : Bool × Stack :=
  let s := s.forget env url
  match target url with
  | none => (false, s.fail 1)
  | some t => if s.http.useTls then (s.aim t).beginTls P env t else (s.aim t).beginPlain P env t

/-- Begin fetching `url`, following no redirects. -/
def start (url : Bytes) (s : Stack) : Bool × Stack :=
  begin P env url { s with
    http := { s.http with hops := 0 }
    hop := { s.hop with fetch := s.hop.fetch + 1 } }

/-! ## Advancing it -/

def tickResolving (s : Stack) : Stack :=
  let s := { s with dns := s.dns.tick env.tcp.now }
  match s.dns.state with
  | .answered =>
    let ip := Ip.ofU32 s.dns.result
    let s := { s with
      dns := s.dns.takeResult.2
      http := { s.http with phase := .connecting, remote := ip.toU32 } }
    s.connect P env ip
  | .failed =>
    { s.fail 3 with
      history := { s.history with refusals := s.history.refusals ++ [⟨s.hop, s.history.lookups⟩] } }
  | _ => s

/-- TLS owns the socket. -/
def tickConnectingTls (s : Stack) : Stack :=
  let s := s.tickTls P env
  match s.session.tls.phase with
  | .established => s.withPhase .sending
  | .failed | .closed => s.fail 4
  | _ => s

def tickConnecting (s : Stack) : Stack :=
  let s := s.transport P env .tick
  match s.tcp.state with
  | .established => s.withPhase .sending
  | .failed => s.fail 4
  | .closed =>
    let ip := Ip.ofU32 s.http.remote
    if ip ≠ ⟨0, 0, 0, 0⟩ && env.reaches ip then s.connect P env ip else s
  | _ => s

/-- What the transport answers to the request. -/
def accepts (s : Stack) : Bool :=
  if s.http.useTls then (s.session.tls.send P (s.tlsEnv env []) s.http.req).1
  else (s.tcp.send env.tcp s.http.req).1

/-- The call that hands the request to the transport. -/
def handing (s : Stack) : Crypto.Op :=
  if s.http.useTls then .send s.http.req else .transport (.send s.http.req)

def handOver (s : Stack) : Stack := s.call P ⟨s.tlsEnv env [], s.handing⟩

def sendRequest (s : Stack) : Stack :=
  let sent := s.accepts P env
  let after := s.handOver P env
  let after := { after with
    history := { after.history with
      requests := after.history.requests ++ [⟨s.hop, s.handing, sent,
        after.tcp.stream.length ≠ s.tcp.stream.length, s.session.tls.clientSeq, after.session.tls.clientSeq⟩] } }
  if sent then { after with http := { after.http with requestSent := true, phase := .receiving } } else after

def sendOnce (s : Stack) : Stack := if s.http.requestSent then s else s.sendRequest P env

def tickSending (s : Stack) : Stack :=
  let s := (s.tickTransport P env).sendOnce P env
  if s.tcp.state = .failed then s.fail 5 else s

/-- Follow the Location the response carried. -/
def followRedirect (s : Stack) : Stack :=
  let hops := s.http.hops + 1
  let s := { s with http := { s.http with hops := hops } }
  if hops > maxHops then (s.fail 8).resetTcp
  else
    match redirectUrl s.http.location s.http.target s.http.useTls with
    | none => (s.fail 1).resetTcp
    | some url =>
      (begin P env url { s with
        history := { s.history with redirects := s.history.redirects ++ [s.hop.fetch] } }).2

/-- Has the server said that this was all? -/
def transportDone (s : Stack) : Bool :=
  if s.http.useTls then s.session.tls.phase = .closed
  else (s.tcp.state = .closed || s.tcp.state = .finSent) && s.tcp.peerClosed

/-- `parse_headers`, until it has found their end. -/
def readHeaders (s : Stack) : Stack :=
  if s.http.headersParsed then s else { s with http := s.http.parseHeaders (s.rxReadAt 0 headerScan) }

/-- The first answer says whether `tick` returns from here. -/
def tickReceiving (s : Stack) : Bool × Stack :=
  let s := (s.tickTransport P env).readHeaders
  if s.http.redirect && !s.http.location.isEmpty then (true, s.followRedirect P env)
  else if s.http.bodyDeclared ≠ 0 && s.bodyLen ≥ s.http.bodyDeclared.toNat then
    (true, (s.transport P env .close).withPhase .done)
  else (false, if s.transportDone then s.withPhase .done else s)

/-- One deadline for the whole fetch. -/
def checkDeadline (s : Stack) : Stack :=
  if !s.http.inProgress then s
  else
    let now := env.tcp.now.toUInt32
    if s.http.deadlineTick = 0 then { s with http := { s.http with deadlineTick := now } }
    else if now - s.http.deadlineTick > deadlineTicks then (s.fail 7).resetTcp
    else s

/-- `http::tick`. -/
def tickHttp (s : Stack) : Stack :=
  match s.http.phase with
  | .resolving => (s.tickResolving P env).checkDeadline env
  | .connecting =>
    if s.http.useTls then s.tickConnectingTls P env else (s.tickConnecting P env).checkDeadline env
  | .sending => (s.tickSending P env).checkDeadline env
  | .receiving =>
    let r := s.tickReceiving P env
    if r.1 then r.2 else r.2.checkDeadline env
  | _ => s.checkDeadline env

/-- `net::tick`. -/
def tick (s : Stack) : Stack :=
  (({ s with dns := s.dns.tick env.tcp.now }).transport P env .tick).tickHttp P env

/-! ## Frames -/

def receiveDns (body : Bytes) (s : Stack) : Stack :=
  let dns := s.dns.receive body
  { s with
    dns := dns
    history := { s.history with
      answers := s.history.answers ++ if s.dns.state = .waiting ∧ dns.state = .answered then
          [⟨s.history.lookups, be16At body 8, dns.result⟩]
        else [] } }

/-- A frame, to the layer that owns it. -/
def receive (frame : Bytes) (s : Stack) : Stack :=
  match Ipv4.parseFrame env.tcp.ourIp frame with
  | none => s
  | some d =>
    if d.proto = Ipv4.protoTcp then s.transport P env (.segment d.src d.body)
    else if d.proto = Ipv4.protoUdp then s.receiveDns d.body
    else s

end Stack

/-! ## Runs -/

inductive Event where
  /-- `http::start`. -/
  | start (url : Bytes)
  | frame (octets : Bytes)
  | tick
  /-- Another program calls `dns::start`. -/
  | lookup (name : Bytes)
  /-- Another program calls `dns::take_result`. -/
  | take
  /-- DHCP names the DNS server. -/
  | server (ip : Ip)

/-- One call, with what the layers below answer while it runs. -/
structure Call where
  env : Env
  event : Event

namespace Stack

def step (P : Crypto.Primitives) (s : Stack) (c : Call) : Stack :=
  match c.event with
  | .start url => (s.start P c.env url).2
  | .frame octets => s.receive P c.env octets
  | .tick => s.tick P c.env
  | .lookup name => s.lookup c.env name
  | .take => { s with dns := s.dns.takeResult.2 }
  | .server ip => { s with dns := { s.dns with server := ip.toU32 } }

/-- After `dns::init`, which listens on a port of its own. -/
def boot (port : UInt16) : Stack := { dns := { localPort := port } }

end Stack

end BarryOS.Net.Http
