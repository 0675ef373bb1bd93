import BarryOS.Crypto.TlsWire

/-!
# Messages anyone on the path can write

A ServerHello in the clear is not signed by anyone. With the base point for a key share, or
with no key exchange at all in TLS 1.2, whoever writes it also knows every secret the client
derives from it, and so the Finished that the client expects next.
-/

namespace BarryOS.Crypto

open Lib Net Session Tls Tcp List

variable (P : Primitives) (env : Env)

/-! ## TLS 1.3 -/

/-- A ServerHello for TLS 1.3 with the base point for a share. -/
def hello13 : Bytes :=
  wrap hsServerHello (be16 0x0303 ++ zeros 32 ++ [0] ++ be16 suiteAes128Sha256 ++ [0] ++
    be16 46 ++ extension extSupportedVersions (be16 0x0304) ++
    extension extKeyShare (be16 groupX25519 ++ be16 32 ++ x25519Base))

/-- The Finished the client expects. -/
def finished13 (s : Tls) : Bytes := wrap hsFinished (finishedMac P s.sHsSecret (s.transcriptHash P))

theorem hello13_read : readServerHello (hello13.drop 4) = .ok x25519Base := by rfl

theorem hello13_whole : Whole hello13 := ⟨by decide +kernel, by decide +kernel⟩

variable (s : Tls)

theorem finished13_whole : Whole (finished13 P s) :=
  wrap_whole _ (by simp [finishedMac])

theorem finished13_length : (finished13 P s).length = 36 := by
  simp [finished13, wrap, finishedMac]

/-- No private key takes the base point to zero. -/
def Usable : Prop := ∀ k, (scalarmult P k x25519Base).all (· = 0) = false

/-- The client behind that ServerHello. -/
def helloed13 (s : Tls) : Tls :=
  (({ s with version := 13 }).transcriptUpdate hello13).installHandshakeKeys P (scalarmult P s.priv x25519Base)

theorem dispatch_hello13 (usable : Usable P) (s : Tls) (log : List Entry) (v : s.version = 0 ∨ s.version = 13) :
    dispatch P env hello13 ⟨s, log⟩ = (true, ⟨helloed13 P s,
      log ++ [.message { s with version := 13 } hello13 true (helloed13 P s)]⟩) := by
  have decided : s.decideVersion hello13 = { s with version := 13 } := by
    unfold decideVersion
    rcases v with zero | thirteen
    · rw [if_pos (by rw [zero]; rfl)]
      rfl
    · rw [if_neg (by simp [thirteen]), ← thirteen]
  have handled : ({ s with version := 13 } : Tls).handleMessage P env hello13 = (true, helloed13 P s) := by
    unfold handleMessage
    rw [if_neg (by simp)]
    unfold handleHandshake13
    rw [if_pos (by rfl)]
    unfold handleServerHello
    rw [hello13_read]
    dsimp only
    rw [if_neg (by simp only [transcriptUpdate, usable s.priv, Bool.false_eq_true, not_false_eq_true])]
    rfl
  unfold dispatch
  dsimp only
  rw [decided, handled]

theorem nonceFor_length (iv : Bytes) (seq : UInt32) (len : iv.length = 12) : (nonceFor iv seq).length = 12 := by
  simp [nonceFor, len]

variable {n : Nat}

/-- A short record under a key goes out as one record of TCP's. -/
theorem sendRecord_sealed13 {s : Tls} {ip : Ip} (kind : UInt8) (body : Bytes) (v : s.version ≠ 12)
    (key : (s.clientKeys kind).key.length = 16) (iv : (s.clientKeys kind).iv.length = 12)
    (short : body.length ≤ 1024) (up : ∀ i, env.tcp.sends i = true) (talking : Talking ip n s.tcp)
    (room : n < 8) : ∃ tcp, Talking ip (n + 1) tcp ∧ tcp.rx = s.tcp.rx ∧
      s.sendRecord P env kind body = (true, { s.sealing (s.call13 kind body) with tcp := tcp }) := by
  obtain ⟨ct, encrypted, len⟩ := gcmEncrypt_some P (s.call13 kind body).key
    (s.call13 kind body).nonce (s.call13 kind body).aad (s.call13 kind body).plain recordCap
      (by simp [call13, recordCap]; omega) (nonceFor_length _ _ iv) key
  have out : record13 P (s.call13 kind body) = some ((s.call13 kind body).aad ++ ct) := by
    unfold record13
    rw [encrypted]
    dsimp only
    rw [if_neg (by rw [len]; simp [call13, recordCap]; omega)]
  have size : ((s.call13 kind body).aad ++ ct).length ≤ maxSeg := by
    rw [length_append, len]
    simp [call13, maxSeg]
    omega
  have ne : (s.call13 kind body).aad ++ ct ≠ [] := by
    simp [call13, recordHeader]
  have sent := talking.send env.tcp up ((s.call13 kind body).aad ++ ct) ne size room
  refine ⟨(s.tcp.send env.tcp ((s.call13 kind body).aad ++ ct)).2, sent.2, Tcb.send_rx _ _ _, ?_⟩
  have recorded : s.recordOut P kind body =
      (some ((s.call13 kind body).aad ++ ct), s.sealing (s.call13 kind body)) := by
    have installed : ¬ (s.clientKeys kind).key.isEmpty = true := by
      intro none
      rw [isEmpty_iff.mp none] at key
      cases key
    unfold recordOut
    rw [if_neg v, if_neg installed, out]
  unfold sendRecord
  rw [recorded]
  unfold handOver
  dsimp only
  rw [show (s.sealing (s.call13 kind body)).tcp = s.tcp from rfl, sent.1]

theorem makeKeys_length (secret : Bytes) :
    (makeKeys P secret).key.length = 16 ∧ (makeKeys P secret).iv.length = 12 := by
  simp [makeKeys]

theorem helloed13_serverHs : (helloed13 P s).serverHs.key.length = 16 := (makeKeys_length P _).1

/-- The client behind the Finished it expects, over some transport. -/
def finishedWith (tcp : Tcb) (s : Tls) : Tls :=
  let t := finishing P (finished13 P s) s
  { t with
    transcript := t.transcript ++ t.clientFinished P, clientSeq := 0, phase := .established, tcp := tcp,
    sealed := t.sealed ++ [(t.transcriptUpdate (t.clientFinished P)).call13 ctHandshake (t.clientFinished P)] }

variable (tcp : Tcb)

theorem finishedWith_clientAp : (finishedWith P tcp s).clientAp.key.length = 16 :=
  (makeKeys_length P _).1

variable (log : List Entry)

theorem dispatch_finished13 {s : Tls} {ip : Ip} (v : s.version = 13)
    (keyed : s.haveHs = true) (key : s.clientHs.key.length = 16) (iv : s.clientHs.iv.length = 12)
    (up : ∀ i, env.tcp.sends i = true) (talking : Talking ip n s.tcp) (room : n < 8) :
    ∃ tcp, Talking ip (n + 1) tcp ∧ tcp.rx = s.tcp.rx ∧
      dispatch P env (finished13 P s) ⟨s, log⟩ = (true, ⟨finishedWith P tcp s,
        log ++ [.message s (finished13 P s) true (finishedWith P tcp s)]⟩) := by
  have decided : s.decideVersion (finished13 P s) = s := by
    unfold decideVersion
    rw [if_neg (by simp [v])]
  have kind : octet (finished13 P s) 0 = hsFinished := rfl
  have body : (finished13 P s).drop 4 = finishedMac P s.sHsSecret (s.transcriptHash P) := rfl
  obtain ⟨tcp, talking', rx, sent⟩ := sendRecord_sealed13 P env ctHandshake
    ((finishing P (finished13 P s) s).clientFinished P)
    (s := (finishing P (finished13 P s) s).transcriptUpdate ((finishing P (finished13 P s) s).clientFinished P))
    (v.trans_ne (by decide)) key iv (by simp [clientFinished, wrap, finishedMac]) up talking room
  refine ⟨tcp, talking', rx, ?_⟩
  have handled : s.handleMessage P env (finished13 P s) = (true, finishedWith P tcp s) := by
    unfold handleMessage
    rw [if_neg (v.trans_ne (by decide))]
    unfold handleHandshake13
    rw [kind, if_neg (by decide), if_neg (by decide), if_neg (by decide), if_pos rfl]
    unfold handleFinished
    rw [body, if_neg (by simp [finishedMac]), keyed, constantTimeEq_self]
    unfold sendFinished
    dsimp only
    rw [show (s.transcriptUpdate (finished13 P s)).installApplicationKeys P =
      finishing P (finished13 P s) s from rfl, sent]
    rfl
  unfold dispatch
  dsimp only
  rw [decided, handled]

/-! ## TLS 1.2 -/

/-- A ServerHello for TLS 1.2. -/
def hello12 : Bytes :=
  wrap hsServerHello (be16 0x0303 ++ zeros 32 ++ [0] ++ be16 suiteEcdheRsa ++ [0])

/-- The Finished the client expects, whatever its master secret is. -/
def finished12 (s : Tls) : Bytes :=
  wrap hsFinished (s.hs12.finishedVerifyData P labelServerFinished (s.transcriptHash P))

theorem hello12_whole : Whole hello12 := ⟨by decide +kernel, by decide +kernel⟩

theorem finished12_whole : Whole (finished12 P s) :=
  wrap_whole _ (by simp [Handshake.finishedVerifyData])

/-- The client behind that ServerHello. -/
def helloed12 (s : Tls) : Tls :=
  { s with
    version := 12, transcript := s.transcript ++ hello12,
    hs12 := { s.hs12 with clientRandom := s.clientRandom, serverRandom := zeros 32, suite := suiteEcdheRsa } }

/-- The client behind the Finished it expects. -/
def finishedWith12 (s : Tls) : Tls :=
  { s with
    transcript := s.transcript ++ finished12 P s, step12 := 3, verified := true, phase := .established }

theorem dispatch_finished12 {s : Tls} (v : s.version = 12) :
    dispatch P env (finished12 P s) ⟨s, log⟩ = (true, ⟨finishedWith12 P s,
      log ++ [.message s (finished12 P s) true (finishedWith12 P s)]⟩) := by
  have decided : s.decideVersion (finished12 P s) = s := by
    unfold decideVersion
    rw [if_neg (by simp [v])]
  have kind : octet (finished12 P s) 0 = hsFinished := rfl
  have len : (finished12 P s).length = 16 := by
    simp [finished12, wrap, Handshake.finishedVerifyData]
  have body : slice (finished12 P s) 4 16 = s.hs12.finishedVerifyData P labelServerFinished (s.transcriptHash P) := by
    unfold slice
    rw [show (finished12 P s).drop 4 = s.hs12.finishedVerifyData P labelServerFinished (s.transcriptHash P) from rfl]
    exact take_of_length_le (by simp [Handshake.finishedVerifyData])
  have handled : s.handleMessage P env (finished12 P s) = (true, finishedWith12 P s) := by
    unfold handleMessage
    rw [if_pos v]
    unfold handleHandshake12
    rw [kind, if_neg (by decide)]
    unfold serverFinished12
    rw [body, constantTimeEq_self]
    rfl
  unfold dispatch
  dsimp only
  rw [decided, handled]

/-! ## Runs -/

/-- The first entry of a forged TLS 1.3 handshake. -/
def helloEntry13 (s : Tls) : Entry := .message { s with version := 13 } hello13 true (helloed13 P s)

/-- What the log of a forged TLS 1.3 handshake holds. -/
def forgedLog13 (s t : Tls) : List Entry :=
  [helloEntry13 P s, .message (helloed13 P s) (finished13 P (helloed13 P s)) true t]

/-- The two records that make the client report an established connection. -/
def forged13 : List Framed :=
  [⟨ctHandshake, hello13⟩, ⟨ctHandshake, finished13 P (helloed13 P (greeted P {}))⟩]

theorem hello13_taken (usable : Usable P) (tcp : Tcb) :
    takeRecord P wireEnv ⟨ctHandshake, hello13⟩ ⟨greeted P tcp, []⟩ =
      ⟨helloed13 P (greeted P tcp), [helloEntry13 P (greeted P tcp)]⟩ := by
  rw [takeRecord_message P wireEnv hello13_whole (.inl ⟨show (0 : UInt8) ≠ 12 by decide, by decide⟩),
    dispatch_hello13 P wireEnv usable _ _ (.inl rfl)]
  rfl

theorem finished13_taken {tcp : Tcb} (talking : Talking serverIp n tcp) (room : n < 8) :
    ∃ tcp', Talking serverIp (n + 1) tcp' ∧ tcp'.rx = tcp.rx ∧
      takeRecord P wireEnv ⟨ctHandshake, finished13 P (helloed13 P (greeted P {}))⟩
        ⟨helloed13 P (greeted P tcp), [helloEntry13 P (greeted P tcp)]⟩ =
        ⟨finishedWith P tcp' (helloed13 P (greeted P tcp)),
          forgedLog13 P (greeted P tcp) (finishedWith P tcp' (helloed13 P (greeted P tcp)))⟩ := by
  obtain ⟨tcp', talking', rx, dispatched⟩ := dispatch_finished13 P wireEnv (s := helloed13 P (greeted P tcp))
    [helloEntry13 P (greeted P tcp)] rfl rfl (makeKeys_length P _).1 (makeKeys_length P _).2 (fun _ => rfl)
    talking room
  refine ⟨tcp', talking', rx, ?_⟩
  rw [takeRecord_message P wireEnv (finished13_whole P _) (.inl ⟨show (13 : UInt8) ≠ 12 by decide, by decide⟩)]
  exact congrArg Prod.snd dispatched

theorem forged13_taken (usable : Usable P) {tcp : Tcb} (talking : Talking serverIp n tcp)
    (room : n < 8) : ∃ tcp', Talking serverIp (n + 1) tcp' ∧ Lasts P wireEnv (forged13 P) ⟨greeted P tcp, []⟩ ∧
      takeRecords P wireEnv (forged13 P) ⟨greeted P tcp, []⟩ = ⟨finishedWith P tcp' (helloed13 P (greeted P tcp)),
          forgedLog13 P (greeted P tcp) (finishedWith P tcp' (helloed13 P (greeted P tcp)))⟩ := by
  have first := hello13_taken P usable tcp
  obtain ⟨tcp', talking', rx, second⟩ := finished13_taken P talking room
  refine ⟨tcp', talking', ?_, ?_⟩
  · unfold forged13
    simp only [Lasts, first, second]
    exact ⟨nofun, rfl, nofun, rx, trivial⟩
  · unfold forged13
    simp only [takeRecords, List.foldl, first, second]

theorem forged13_fits : ∀ r ∈ forged13 P, r.Fits := by
  have finished := finished13_length P (helloed13 P (greeted P {}))
  intro r member
  simp only [forged13, mem_cons, not_mem_nil, or_false] at member
  rcases member with rfl | rfl
  · exact ⟨by decide, by decide +kernel⟩
  · exact ⟨ne_nil_of_length_pos (by rw [finished]; decide), by rw [finished]; decide⟩

theorem forged13_short : ((forged13 P).flatMap Framed.octets).length ≤ rxCap := by
  have hello : hello13.length = 90 := by decide +kernel
  simp [forged13, Framed.octets, Session.header_length, finished13_length, hello, rxCap]

theorem over_greeted (tcp₀ : Tcb) : Session.over tcp ⟨greeted P tcp₀, []⟩ = ⟨greeted P tcp, []⟩ := rfl

/-- A connection with nobody's certificate, reported as established. -/
theorem forged13_reachable (usable : Usable P) : ∃ tcp t tcp', Talking serverIp 2 tcp' ∧ tcp'.pending = [] ∧
    Reachable P (Session.over tcp' ⟨finishedWith P t (helloed13 P (greeted P tcp)),
      forgedLog13 P (greeted P tcp) (finishedWith P t (helloed13 P (greeted P tcp)))⟩) := by
  obtain ⟨tcp₀, reachable, talking, empty⟩ := greeted_reachable P
  obtain ⟨tcp, tcp', talking', open', pending, taken⟩ := reachable.taken P (.inl rfl) talking empty (forged13 P)
    (forged13_fits P) (forged13_short P) (fun tcp talking => by
      obtain ⟨t, behind, lasts, folded⟩ := forged13_taken P usable talking (by decide)
      rw [over_greeted, folded]
      exact ⟨lasts, behind, fun twelve => absurd twelve (show (13 : UInt8) ≠ 12 by decide)⟩)
  obtain ⟨t, -, -, folded⟩ := forged13_taken P usable talking' (by decide)
  rw [over_greeted, folded] at taken
  exact ⟨tcp, t, tcp', open', pending, taken⟩

/-- The first entry of a forged TLS 1.2 handshake. -/
def helloEntry12 (s : Tls) : Entry := .message { s with version := 12 } hello12 true (helloed12 s)

theorem hello12_taken : takeRecord P wireEnv ⟨ctHandshake, hello12⟩ ⟨greeted P tcp, []⟩ =
    ⟨helloed12 (greeted P tcp), [helloEntry12 (greeted P tcp)]⟩ := by
  rw [takeRecord_message P wireEnv hello12_whole (.inl ⟨show (0 : UInt8) ≠ 12 by decide, by decide⟩)]
  rfl

/-- A ServerHello, and at once the Finished over the zeros the master secret starts as. -/
def forged12 : List Framed :=
  [⟨ctHandshake, hello12⟩, ⟨ctHandshake, finished12 P (helloed12 (greeted P {}))⟩]

def forgedLog12 (s : Tls) : List Entry :=
  [helloEntry12 s, .message (helloed12 s) (finished12 P (helloed12 s)) true (finishedWith12 P (helloed12 s))]

theorem forged12_taken : Lasts P wireEnv (forged12 P) ⟨greeted P tcp, []⟩ ∧
    takeRecords P wireEnv (forged12 P) ⟨greeted P tcp, []⟩ =
      ⟨finishedWith12 P (helloed12 (greeted P tcp)), forgedLog12 P (greeted P tcp)⟩ := by
  have second : takeRecord P wireEnv ⟨ctHandshake, finished12 P (helloed12 (greeted P {}))⟩
      ⟨helloed12 (greeted P tcp), [helloEntry12 (greeted P tcp)]⟩ =
      ⟨finishedWith12 P (helloed12 (greeted P tcp)), forgedLog12 P (greeted P tcp)⟩ := by
    rw [takeRecord_message P wireEnv (finished12_whole P _) (.inr ⟨rfl, rfl, by decide⟩)]
    exact congrArg Prod.snd (dispatch_finished12 P wireEnv (s := helloed12 (greeted P tcp))
      [helloEntry12 (greeted P tcp)] rfl)
  constructor
  · unfold forged12
    simp only [Lasts, hello12_taken, second]
    exact ⟨nofun, rfl, nofun, rfl, trivial⟩
  · unfold forged12
    simp only [takeRecords, List.foldl, hello12_taken, second]

theorem finished12_length : (finished12 P s).length = 16 := by
  simp [finished12, wrap, Handshake.finishedVerifyData]

theorem forged12_fits : ∀ r ∈ forged12 P, r.Fits := by
  have finished := finished12_length P (helloed12 (greeted P {}))
  intro r member
  simp only [forged12, mem_cons, not_mem_nil, or_false] at member
  rcases member with rfl | rfl
  · exact ⟨by decide, by decide +kernel⟩
  · exact ⟨ne_nil_of_length_pos (by rw [finished]; decide), by rw [finished]; decide⟩

theorem forged12_short : ((forged12 P).flatMap Framed.octets).length ≤ rxCap := by
  have hello : hello12.length = 42 := by decide +kernel
  simp [forged12, Framed.octets, Session.header_length, finished12_length, hello, rxCap]

/-- Established in TLS 1.2 with no certificate, no key exchange and no cipher. -/
theorem forged12_reachable : ∃ tcp tcp', Talking serverIp 1 tcp' ∧ Reachable P (Session.over tcp'
    ⟨finishedWith12 P (helloed12 (greeted P tcp)), forgedLog12 P (greeted P tcp)⟩) := by
  obtain ⟨tcp₀, reachable, talking, empty⟩ := greeted_reachable P
  obtain ⟨tcp, tcp', -, open', -, taken⟩ := reachable.taken P (.inl rfl) talking empty (forged12 P)
    (forged12_fits P) (forged12_short P) (fun tcp talking => by
      obtain ⟨lasts, folded⟩ := forged12_taken P tcp
      rw [over_greeted, folded]
      exact ⟨lasts, talking, fun _ => show (3 : UInt8) ≠ 1 by decide⟩)
  rw [over_greeted, (forged12_taken P tcp).2] at taken
  exact ⟨tcp, tcp', open', taken⟩

/-- A ServerHello, and one octet of application data in the clear. -/
def clearData12 : List Framed := [⟨ctHandshake, hello12⟩, ⟨ctApplicationData, [0x41]⟩]

def clearLog12 (s : Tls) : List Entry :=
  [helloEntry12 s, .data (helloed12 s) ⟨ctApplicationData, [0x41], none⟩]

theorem clearData12_taken : Lasts P wireEnv clearData12 ⟨greeted P tcp, []⟩ ∧
    takeRecords P wireEnv clearData12 ⟨greeted P tcp, []⟩ =
      ⟨{ helloed12 (greeted P tcp) with rx := [0x41] }, clearLog12 (greeted P tcp)⟩ := by
  have second : takeRecord P wireEnv ⟨ctApplicationData, [0x41]⟩
      ⟨helloed12 (greeted P tcp), [helloEntry12 (greeted P tcp)]⟩ =
      ⟨{ helloed12 (greeted P tcp) with rx := [0x41] }, clearLog12 (greeted P tcp)⟩ := by
    rfl
  constructor
  · unfold clearData12
    simp only [Lasts, hello12_taken, second]
    exact ⟨nofun, rfl, nofun, trivial, trivial⟩
  · unfold clearData12
    simp only [takeRecords, List.foldl, hello12_taken, second]

theorem clearData12_fits : ∀ r ∈ clearData12, r.Fits := by
  intro r member
  simp only [clearData12, mem_cons, not_mem_nil, or_false] at member
  rcases member with rfl | rfl
  · exact ⟨by decide, by decide +kernel⟩
  · exact ⟨by decide, by decide⟩

/-- An octet nobody sealed is in the application's buffer. -/
theorem clearData12_reachable : ∃ tcp tcp', Reachable P (Session.over tcp'
    ⟨{ helloed12 (greeted P tcp) with rx := [0x41] }, clearLog12 (greeted P tcp)⟩) := by
  obtain ⟨tcp₀, reachable, talking, empty⟩ := greeted_reachable P
  obtain ⟨tcp, tcp', -, -, -, taken⟩ := reachable.taken P (.inl rfl) talking empty clearData12
    clearData12_fits (by decide +kernel) (fun tcp talking => by
      obtain ⟨lasts, folded⟩ := clearData12_taken P tcp
      rw [over_greeted, folded]
      exact ⟨lasts, talking, fun _ => show (0 : UInt8) ≠ 1 by decide⟩)
  rw [over_greeted, (clearData12_taken P tcp).2] at taken
  exact ⟨tcp, tcp', taken⟩

end BarryOS.Crypto
