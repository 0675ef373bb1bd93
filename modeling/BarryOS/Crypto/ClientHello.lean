import BarryOS.Crypto.TlsRecord
import BarryOS.Lib.Vectors

/-!
# The ClientHello on the wire (crypto/tls.rs)

`send_client_hello` fills a buffer of 1024 octets from the front and goes back to fill in the lengths.
Here it is that sequence of writes, with the message of `Tls.clientHello` as what it leaves, and a
reader of the TLS grammar that accepts a vector only where its length is exact.
-/

namespace BarryOS.Crypto

open Lib Tls List
open Option (bind_eq_bind bind_some map_some)

/-! ## Writing -/

namespace ClientHello

def cap : Nat := 1024

def push (data : Bytes) : Buf → Option Buf := Buf.push cap data

def pushU16 (v : UInt16) : Buf → Option Buf := push (be16 v)

/-- `let at = ext_begin(..)`, a body, and `ext_end(.., at)`. -/
def ext (kind : UInt16) (body : Buf → Option Buf) : Buf → Option Buf := pushU16 kind >=> Buf.measured cap body

def serverName (host : Bytes) : Buf → Option Buf :=
  ext extServerName
    (pushU16 (UInt16.ofNat (host.length + 3)) >=> push [0] >=> pushU16 (UInt16.ofNat host.length) >=> push host)

def supportedGroups : Buf → Option Buf :=
  ext extSupportedGroups (Buf.measured cap (pushU16 groupX25519 >=> pushU16 groupSecp256r1))

def ecPointFormats : Buf → Option Buf := ext extEcPointFormats (push [1] >=> push [0])

def signatureAlgorithms : Buf → Option Buf :=
  ext extSignatureAlgorithms (Buf.measured cap
    (pushU16 sigEcdsaSha256 >=> pushU16 sigEcdsaSha384 >=> pushU16 sigEcdsaSha512 >=> pushU16 sigRsaPssSha256 >=>
      pushU16 sigRsaPssSha384 >=> pushU16 sigRsaPssSha512 >=> pushU16 sigRsaPkcs1Sha256 >=>
      pushU16 sigRsaPkcs1Sha384 >=> pushU16 sigRsaPkcs1Sha512))

def alpn : Buf → Option Buf := ext extAlpn (Buf.measured cap (push [8] >=> push http11))

def supportedVersions : Buf → Option Buf :=
  ext extSupportedVersions (push [4] >=> pushU16 0x0304 >=> pushU16 0x0303)

def keyShare (share : Bytes) : Buf → Option Buf :=
  ext extKeyShare (Buf.measured cap (pushU16 groupX25519 >=> pushU16 32 >=> push share))

/-- The body, in the order of the source. -/
def body (host random share : Bytes) : Buf → Option Buf :=
  pushU16 0x0303 >=> push random >=> push [0] >=>
    pushU16 6 >=> pushU16 suiteAes128Sha256 >=> pushU16 suiteEcdheEcdsa >=> pushU16 suiteEcdheRsa >=>
    push [1] >=> push [0] >=>
    Buf.measured cap (serverName host >=> supportedGroups >=> ecPointFormats >=> signatureAlgorithms >=> alpn >=>
      supportedVersions >=> keyShare share)

/-- The handshake header goes into a second buffer, with the body behind it. -/
def message (host random share : Bytes) : Option Bytes := do
  let b ← body host random share {}
  let msg ← (push [hsClientHello] >=> push (be24 b.n) >=> push b.text) {}
  some msg.text

theorem push_writes (data : Bytes) : Buf.Writes cap (push data) data := Buf.push_writes cap data

theorem pushU16_writes (v : UInt16) : Buf.Writes cap (pushU16 v) (be16 v) := push_writes (be16 v)

theorem ext_writes {kind : UInt16} {body : Buf → Option Buf} {d : Bytes} (hd : Buf.Writes cap body d) :
    Buf.Writes cap (ext kind body) (extension kind d) := by
  have written := (pushU16_writes kind).andThen hd.measured
  rwa [← append_assoc] at written

theorem extensions_write (host share : Bytes) :
    Buf.Writes cap (serverName host >=> supportedGroups >=> ecPointFormats >=> signatureAlgorithms >=> alpn >=>
      supportedVersions >=> keyShare share) (helloExtensions host share) := by
  have name : Buf.Writes cap (serverName host) _ :=
    ext_writes ((pushU16_writes _).andThen ((push_writes _).andThen ((pushU16_writes _).andThen (push_writes _))))
  have groups : Buf.Writes cap supportedGroups _ := ext_writes ((pushU16_writes _).andThen (pushU16_writes _)).measured
  have formats : Buf.Writes cap ecPointFormats _ := ext_writes ((push_writes _).andThen (push_writes _))
  have signatures : Buf.Writes cap signatureAlgorithms _ :=
    ext_writes ((pushU16_writes _).andThen ((pushU16_writes _).andThen ((pushU16_writes _).andThen
      ((pushU16_writes _).andThen ((pushU16_writes _).andThen ((pushU16_writes _).andThen
        ((pushU16_writes _).andThen ((pushU16_writes _).andThen (pushU16_writes _))))))))).measured
  have protocols : Buf.Writes cap alpn _ := ext_writes ((push_writes _).andThen (push_writes _)).measured
  have versions : Buf.Writes cap supportedVersions _ :=
    ext_writes ((push_writes _).andThen ((pushU16_writes _).andThen (pushU16_writes _)))
  have key : Buf.Writes cap (keyShare share) _ :=
    ext_writes ((pushU16_writes _).andThen ((pushU16_writes _).andThen (push_writes _))).measured
  have all := name.andThen (groups.andThen (formats.andThen (signatures.andThen (protocols.andThen
    (versions.andThen key)))))
  simpa [helloExtensions, listed] using all

/-- The lengths that were filled in are those of the message. -/
theorem body_writes (host random share : Bytes) : ∃ d, Buf.Writes cap (body host random share) d ∧
    clientHello host random share = wrap hsClientHello d := by
  have all := (pushU16_writes 0x0303).andThen ((push_writes random).andThen ((push_writes [0]).andThen
    ((pushU16_writes 6).andThen ((pushU16_writes suiteAes128Sha256).andThen
      ((pushU16_writes suiteEcdheEcdsa).andThen ((pushU16_writes suiteEcdheRsa).andThen ((push_writes [1]).andThen
        ((push_writes [0]).andThen (extensions_write host share).measured))))))))
  refine ⟨_, all, ?_⟩
  simp [clientHello, listed, be16]

theorem clientHello_size (host : Bytes) {random share : Bytes} (r : random.length = 32) (k : share.length = 32) :
    (clientHello host random share).length = 166 + host.length := by
  simp [clientHello, helloExtensions, extension, listed, wrap, be16, http11, k]
  omega

/-- No write leaves a buffer, and the message is the one the handshake goes on with. -/
theorem message_eq {host random share : Bytes} (short : host.length ≤ 127) (r : random.length = 32)
    (k : share.length = 32) : message host random share = some (clientHello host random share) := by
  obtain ⟨d, written, same⟩ := body_writes host random share
  have length := clientHello_size host r k
  rw [same]
  rw [same, wrap, length_append, length_cons] at length
  obtain ⟨b, filled, text⟩ := written {} (by unfold cap; simp only; omega)
  rw [show (({} : Buf).text) = [] from rfl, nil_append] at text
  have n : b.n = d.length := by rw [← Buf.text_length, text]
  obtain ⟨msg, copied, whole⟩ := ((push_writes [hsClientHello]).andThen ((push_writes (be24 b.n)).andThen
    (push_writes b.text))) {} (by simp [cap]; omega)
  simp only [message, filled, copied, bind_eq_bind, bind_some, whole]
  rw [text, n]
  rfl

/-! ## Reading -/

inductive Extension where
  | serverName (names : List (UInt8 × Bytes))
  | supportedGroups (groups : List UInt16)
  | ecPointFormats (formats : Bytes)
  | signatureAlgorithms (schemes : List UInt16)
  | alpn (protocols : List Bytes)
  | supportedVersions (versions : List UInt16)
  | keyShare (shares : List (UInt16 × Bytes))
  deriving DecidableEq, Repr

structure Hello where
  random : Bytes
  sessionId : Bytes
  suites : List UInt16
  compression : Bytes
  extensions : List Extension
  deriving DecidableEq, Repr

/-- Something that ends where its surroundings end. -/
def whole {α : Type} (read : Bytes → Option (α × Bytes)) (input : Bytes) : Option α :=
  match read input with
  | some (a, []) => some a
  | _ => none

def readU16 (input : Bytes) : Option (UInt16 × Bytes) :=
  if input.length < 2 then none else some (be16At input 0, input.drop 2)

def readU16s (input : Bytes) : Option (List UInt16) := readItems readU16 input.length input

/-- A type octet or code, and a vector. -/
def readName (input : Bytes) : Option ((UInt8 × Bytes) × Bytes) := do
  let (kind, rest) ← readBytes 1 input
  let (name, rest) ← readVector 2 rest
  some ((octet kind 0, name), rest)

def readTagged (input : Bytes) : Option ((UInt16 × Bytes) × Bytes) := do
  let (kind, rest) ← readU16 input
  let (body, rest) ← readVector 2 rest
  some ((kind, body), rest)

def readExtension (kind : UInt16) (body : Bytes) : Option Extension :=
  if kind = extServerName then do
    let list ← whole (readVector 2) body
    (readItems readName list.length list).map .serverName
  else if kind = extSupportedGroups then do
    let list ← whole (readVector 2) body
    (readU16s list).map .supportedGroups
  else if kind = extEcPointFormats then (whole (readVector 1) body).map .ecPointFormats
  else if kind = extSignatureAlgorithms then do
    let list ← whole (readVector 2) body
    (readU16s list).map .signatureAlgorithms
  else if kind = extAlpn then do
    let list ← whole (readVector 2) body
    (readItems (readVector 1) list.length list).map .alpn
  else if kind = extSupportedVersions then do
    let list ← whole (readVector 1) body
    (readU16s list).map .supportedVersions
  else if kind = extKeyShare then do
    let list ← whole (readVector 2) body
    (readItems readTagged list.length list).map .keyShare
  else none

def readHello (body : Bytes) : Option Hello := do
  let (version, rest) ← readU16 body
  guard (version = 0x0303)
  let (random, rest) ← readBytes 32 rest
  let (sessionId, rest) ← readVector 1 rest
  let (suites, rest) ← readVector 2 rest
  let (compression, rest) ← readVector 1 rest
  let extensions ← whole (readVector 2) rest
  let suites ← readU16s suites
  let extensions ← readItems readTagged extensions.length extensions
  let extensions ← extensions.mapM fun e => readExtension e.1 e.2
  some ⟨random, sessionId, suites, compression, extensions⟩

/-- A record with one ClientHello in it and nothing else. -/
def readRecord (record : Bytes) : Option Hello := do
  let (kind, rest) ← readBytes 1 record
  guard (kind = [ctHandshake])
  let (_, rest) ← readBytes 2 rest
  let fragment ← whole (readVector 2) rest
  let (kind, rest) ← readBytes 1 fragment
  guard (kind = [hsClientHello])
  let body ← whole (readVector 3) rest
  readHello body

theorem bigEndian_be16 {n : Nat} (small : n < 65536) : bigEndian (be16 (UInt16.ofNat n)) = n := by
  simp [bigEndian, be16]
  omega

theorem bigEndian_be24 {n : Nat} (small : n < 16777216) : bigEndian (be24 n) = n := by
  simp [bigEndian, be24]
  omega

theorem readU16_be16 (v : UInt16) (rest : Bytes) : readU16 (be16 v ++ rest) = some (v, rest) := by
  rw [readU16, be16At_be16]
  rfl

theorem readVector_listed {body : Bytes} (short : body.length < 65536) (rest : Bytes) :
    readVector 2 (be16 (UInt16.ofNat body.length) ++ (body ++ rest)) = some (body, rest) :=
  readVector_append rfl (bigEndian_be16 short) rest

theorem whole_listed {body : Bytes} (short : body.length < 65536) :
    whole (readVector 2) (be16 (UInt16.ofNat body.length) ++ body) = some body := by
  have read := readVector_listed short []
  rw [append_nil] at read
  rw [whole, read]

theorem readOctet (b : UInt8) (rest : Bytes) : readBytes 1 (b :: rest) = some ([b], rest) := by
  simp [readBytes]

theorem readTagged_extension {e : UInt16 × Bytes} (short : e.2.length < 65536) (rest : Bytes) :
    readTagged (extension e.1 e.2 ++ rest) = some (e, rest) := by
  simp only [readTagged, extension, append_assoc, readU16_be16, bind_eq_bind, bind_some, readVector_listed short]

theorem readName_name {e : UInt8 × Bytes} (short : e.2.length < 65536) (rest : Bytes) :
    readName (e.1 :: (be16 (UInt16.ofNat e.2.length) ++ e.2) ++ rest) = some (e, rest) := by
  have kind : ∀ input, readBytes 1 (e.1 :: input) = some ([e.1], input) := readOctet e.1
  simp only [readName, cons_append, kind, append_assoc, bind_eq_bind, bind_some, readVector_listed short]
  rfl

/-- The extensions, with their bodies. -/
def extensionsOf (host share : Bytes) : List (UInt16 × Bytes) :=
  [(extServerName, be16 (UInt16.ofNat (host.length + 3)) ++ [0] ++ be16 (UInt16.ofNat host.length) ++ host),
    (extSupportedGroups, listed (be16 groupX25519 ++ be16 groupSecp256r1)),
    (extEcPointFormats, [1, 0]),
    (extSignatureAlgorithms, listed
      ([sigEcdsaSha256, sigEcdsaSha384, sigEcdsaSha512, sigRsaPssSha256, sigRsaPssSha384,
        sigRsaPssSha512, sigRsaPkcs1Sha256, sigRsaPkcs1Sha384, sigRsaPkcs1Sha512].flatMap be16)),
    (extAlpn, listed (8 :: http11)),
    (extSupportedVersions, [4] ++ be16 0x0304 ++ be16 0x0303),
    (extKeyShare, listed (be16 groupX25519 ++ be16 32 ++ share))]

/-- What the message says. -/
def hello (host random share : Bytes) : Hello where
  random := random
  sessionId := []
  suites := [suiteAes128Sha256, suiteEcdheEcdsa, suiteEcdheRsa]
  compression := [0]
  extensions :=
    [.serverName [(0, host)], .supportedGroups [groupX25519, groupSecp256r1], .ecPointFormats [0],
      .signatureAlgorithms [sigEcdsaSha256, sigEcdsaSha384, sigEcdsaSha512, sigRsaPssSha256, sigRsaPssSha384,
        sigRsaPssSha512, sigRsaPkcs1Sha256, sigRsaPkcs1Sha384, sigRsaPkcs1Sha512],
      .alpn [http11], .supportedVersions [0x0304, 0x0303], .keyShare [(groupX25519, share)]]

theorem read_serverName {host : Bytes} (short : host.length ≤ 127) : readExtension extServerName
      (be16 (UInt16.ofNat (host.length + 3)) ++ [0] ++ be16 (UInt16.ofNat host.length) ++ host) =
        some (.serverName [(0, host)]) := by
  have three : (0 :: (be16 (UInt16.ofNat host.length) ++ host)).length = host.length + 3 := by
    simp [be16]
  have list : be16 (UInt16.ofNat (host.length + 3)) ++ [0] ++ be16 (UInt16.ofNat host.length) ++ host =
      be16 (UInt16.ofNat (0 :: (be16 (UInt16.ofNat host.length) ++ host)).length) ++
        0 :: (be16 (UInt16.ofNat host.length) ++ host) := by
    rw [three]
    simp
  have names : readItems readName (0 :: (be16 (UInt16.ofNat host.length) ++ host)).length
      ([((0 : UInt8), host)].flatMap fun e => e.1 :: (be16 (UInt16.ofNat e.2.length) ++ e.2)) = some [(0, host)] := by
    refine readItems_flatMap ?_ (by simp) (by simp)
    simpa using fun rest => readName_name (e := (0, host)) (by dsimp only; omega) rest
  rw [flatMap_singleton] at names
  rw [readExtension, if_pos rfl, list, whole_listed (by rw [three]; omega)]
  simp only [bind_eq_bind, bind_some, names, map_some]

theorem read_keyShare {share : Bytes} (k : share.length = 32) :
    readExtension extKeyShare (listed (be16 groupX25519 ++ be16 32 ++ share)) =
      some (.keyShare [(groupX25519, share)]) := by
  have entry : be16 groupX25519 ++ be16 32 ++ share = extension groupX25519 share := by
    rw [extension, k]
    rfl
  have length : (extension groupX25519 share).length = 36 := by
    simp [extension, be16, k]
  have shares : readItems readTagged (extension groupX25519 share).length
      ([(groupX25519, share)].flatMap fun e => extension e.1 e.2) = some [(groupX25519, share)] := by
    refine readItems_flatMap ?_ (by simp [extension, be16]) (by simp)
    simpa using fun rest => readTagged_extension (e := (groupX25519, share)) (by dsimp only; omega) rest
  rw [flatMap_singleton] at shares
  rw [readExtension, if_neg (by decide), if_neg (by decide), if_neg (by decide), if_neg (by decide),
    if_neg (by decide), if_neg (by decide), if_pos rfl, entry, listed, whole_listed (by rw [length]; decide)]
  simp only [bind_eq_bind, bind_some, shares, map_some]

theorem read_extensions {host share : Bytes} (short : host.length ≤ 127) (k : share.length = 32) :
    readItems readTagged (helloExtensions host share).length (helloExtensions host share) =
      some (extensionsOf host share) := by
  have coded : helloExtensions host share = (extensionsOf host share).flatMap fun e => extension e.1 e.2 := by
    simp [helloExtensions, extensionsOf]
  have bounded : ∀ e ∈ extensionsOf host share, e.2.length < 65536 := by
    simp [extensionsOf, listed, be16, http11]
    omega
  rw [coded]
  refine readItems_flatMap ?_ ?_ le_rfl
  · intro e member rest
    exact readTagged_extension (bounded e member) rest
  · intro e _
    simp [extension, be16]

theorem readHello_body {host random share : Bytes} (short : host.length ≤ 127) (r : random.length = 32)
    (k : share.length = 32) : readHello (be16 0x0303 ++ random ++ [0] ++
      listed (be16 suiteAes128Sha256 ++ be16 suiteEcdheEcdsa ++ be16 suiteEcdheRsa) ++ [1, 0] ++
        listed (helloExtensions host share)) = some (hello host random share) := by
  have length : (helloExtensions host share).length = 115 + host.length := by
    simp [helloExtensions, extension, listed, be16, http11]
    omega
  have session : ∀ rest, readVector 1 ([0] ++ rest) = some ([], rest) := by
    intro rest
    exact readVector_append (show ([0] : Bytes).length = 1 from rfl) (show _ = ([] : Bytes).length from rfl) rest
  have compression : ∀ rest, readVector 1 ([1, 0] ++ rest) = some ([0], rest) := by
    intro rest
    exact readVector_append (show ([1] : Bytes).length = 1 from rfl) (show _ = ([0] : Bytes).length from rfl) rest
  have bodies : ((extensionsOf host share).mapM fun e => readExtension e.1 e.2) =
      some (hello host random share).extensions := by
    simp only [extensionsOf, mapM_cons, read_serverName short, read_keyShare k]
    rfl
  have six : (be16 suiteAes128Sha256 ++ be16 suiteEcdheEcdsa ++ be16 suiteEcdheRsa).length < 65536 := by decide
  have offered : readU16s (be16 suiteAes128Sha256 ++ be16 suiteEcdheEcdsa ++ be16 suiteEcdheRsa) =
      some (hello host random share).suites := by
    rfl
  generalize be16 suiteAes128Sha256 ++ be16 suiteEcdheEcdsa ++ be16 suiteEcdheRsa = suites at six offered ⊢
  simp only [readHello, listed, append_assoc, readU16_be16, readBytes_append r, session, compression,
    readVector_listed six, whole_listed (show (helloExtensions host share).length < 65536 by omega),
    bind_eq_bind, bind_some, guard, if_true, Option.pure_def, offered, read_extensions short k, bodies]
  rfl

/-- For every host that a fetch passes on, every random and every key share: no write leaves a buffer,
and the record reads back under the grammar, with every length exact and the host as its one name. -/
theorem clientHello_reads {s : Tls} (host : Str) {random share : Bytes} (named : s.host = host.bytes)
    (short : 1 ≤ host.bytes.length ∧ host.bytes.length ≤ 127) (r : random.length = 32) (k : share.length = 32) :
    ∃ record, message s.hostStr random share = some (clientHello s.hostStr random share) ∧
      plainRecord ctHandshake (clientHello s.hostStr random share) = some record ∧
      readRecord record = some (hello host.bytes random share) := by
  have same : s.hostStr = host.bytes := by
    rw [hostStr, named, if_pos host.utf8]
  rw [same]
  have length : (clientHello host.bytes random share).length = 166 + host.bytes.length :=
    clientHello_size host.bytes r k
  refine ⟨_, message_eq short.2 r k, if_neg (by rw [length]; unfold recordCap; omega), ?_⟩
  have body := readHello_body short.2 r k
  rw [clientHello] at length ⊢
  generalize be16 0x0303 ++ random ++ [0] ++ listed (be16 suiteAes128Sha256 ++ be16 suiteEcdheEcdsa ++
    be16 suiteEcdheRsa) ++ [1, 0] ++ listed (helloExtensions host.bytes share) = d at body length ⊢
  have few : d.length < 16777216 := by
    simp only [wrap, length_append] at length
    omega
  have inner : whole (readVector 3) (be24 d.length ++ d) = some d := by
    have read := readVector_append (be24_length d.length) (bigEndian_be24 few) []
    rw [append_nil] at read
    rw [whole, read]
  have version : ∀ rest, readBytes 2 (0x03 :: 0x03 :: rest) = some ([0x03, 0x03], rest) := by
    simp [readBytes]
  have outer := whole_listed (show (wrap hsClientHello d).length < 65536 by omega)
  rw [wrap, cons_append] at outer
  simp only [readRecord, recordHeader, wrap, cons_append, nil_append, readOctet, version, outer, inner,
    body, bind_eq_bind, bind_some, guard, if_true, Option.pure_def]

theorem short_hello_reads : ∃ record, plainRecord ctHandshake (clientHello [0x61] (zeros 32) (zeros 32)) = some record ∧
      readRecord record = some (hello [0x61] (zeros 32) (zeros 32)) := by
  obtain ⟨record, _, sent, reads⟩ := clientHello_reads (s := { host := [0x61] }) ⟨[0x61], by decide⟩ rfl
    (by decide) (zeros_length 32) (zeros_length 32)
  exact ⟨record, sent, reads⟩

end ClientHello

end BarryOS.Crypto
