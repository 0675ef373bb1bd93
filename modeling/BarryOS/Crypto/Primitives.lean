import BarryOS.Lib.Utf8

/-!
# Primitives and key derivations

The hash functions, AES-GCM's tag and key stream, X25519, the two curves, RSA and the
generated trust store are a parameter: what is proved over `Primitives` holds whatever they
compute. HMAC, HKDF with the TLS 1.3 labels, the TLS 1.2 PRF and the two AES-GCM entry
points are the code's own.
-/

namespace BarryOS.Crypto

open Lib

inductive HashId where
  | sha256 | sha384 | sha512
  deriving DecidableEq, Repr

inductive Curve where
  | p256 | p384
  deriving DecidableEq, Repr

def Curve.orderLen : Curve → Nat
  | .p256 => 32
  | .p384 => 48

/-- An entry of the trust store. -/
structure Root where
  subject : Bytes
  spki : Bytes

/-- An array a primitive fills is given octet by octet, so that its size is the code's. -/
structure Primitives where
  sha256 : Bytes → Nat → UInt8
  sha384 : Bytes → Nat → UInt8
  sha512 : Bytes → Nat → UInt8
  /-- The tag of `gcm_tag`: key, nonce, additional data, ciphertext. -/
  gcmTag : Bytes → Bytes → Bytes → Bytes → Nat → UInt8
  /-- The stream `gctr` adds to the data: key, nonce. -/
  gctr : Bytes → Bytes → Nat → UInt8
  /-- `scalarmult`: scalar, point. -/
  x25519 : Bytes → Bytes → Nat → UInt8
  /-- `Ec::verify`: public key, `r`, `s`, digest. -/
  ecdsa : Curve → Bytes → Bytes → Bytes → Bytes → Bool
  /-- `public_from_scalar` on P-256, for a scalar in range. -/
  p256Public : Bytes → Option (Nat → UInt8)
  /-- `shared_secret` on P-256: scalar, peer. -/
  p256Shared : Bytes → Bytes → Option (Nat → UInt8)
  /-- `RsaPublic::new` and `verify_pkcs1_v15`: modulus, exponent, signature, digest. -/
  rsaPkcs1 : Bytes → Bytes → Bytes → HashId → Bytes → Bool
  /-- `RsaPublic::new` and `verify_pss`. -/
  rsaPss : Bytes → Bytes → Bytes → HashId → Bytes → Bool
  /-- The generated `ROOTS`. -/
  roots : List Root

variable (P : Primitives)

/-! ## Hashes -/

def sha256 (data : Bytes) : Bytes := octets 32 (P.sha256 data)

def HashId.hash (h : HashId) (data : Bytes) : Bytes :=
  match h with
  | .sha256 => octets 32 (P.sha256 data)
  | .sha384 => octets 48 (P.sha384 data)
  | .sha512 => octets 64 (P.sha512 data)

@[simp] theorem sha256_length (data : Bytes) : (sha256 P data).length = 32 := by
  simp [sha256]

/-- The octets that differ, gathered without an early exit. -/
def constantTimeEq (a b : Bytes) : Bool :=
  if a.length ≠ b.length then false
  else (List.zipWith (· ^^^ ·) a b).foldl (· ||| ·) 0 = 0

theorem foldl_or_xor_self (a : Bytes) : (List.zipWith (· ^^^ ·) a a).foldl (· ||| ·) 0 = 0 := by
  induction a with
  | nil => rfl
  | cons x a ih => simpa using ih

@[simp] theorem constantTimeEq_self (a : Bytes) : constantTimeEq a a = true := by
  unfold constantTimeEq
  rw [if_neg (by simp), foldl_or_xor_self]
  rfl

/-! ## HMAC -/

def blockLen : Nat := 64

/-- The key, hashed down when it is longer than a block, filled up with zeros. -/
def hmacKey (key : Bytes) : Bytes :=
  if key.length > blockLen then sha256 P key ++ zeros (blockLen - 32)
  else key ++ zeros (blockLen - key.length)

def hmacParts (key : Bytes) (parts : List Bytes) : Bytes :=
  let k := hmacKey P key
  let ih := sha256 P (k.map (0x36 ^^^ ·) ++ parts.flatten)
  sha256 P (k.map (0x5c ^^^ ·) ++ ih)

def hmac (key data : Bytes) : Bytes := hmacParts P key [data]

@[simp] theorem hmacParts_length (key : Bytes) (parts : List Bytes) : (hmacParts P key parts).length = 32 := by
  simp [hmacParts]

@[simp] theorem hmac_length (key data : Bytes) : (hmac P key data).length = 32 :=
  hmacParts_length P key [data]

/-! ## HKDF -/

def extract (salt ikm : Bytes) : Bytes :=
  if salt.isEmpty then hmac P (zeros 32) ikm else hmac P salt ikm

/-- `T(n)`, `T(n+1)`, …, of which the first has no block before it. -/
def expandBlocks (prk info : Bytes) : Nat → Bytes → UInt8 → Bytes
  | 0, _, _ => []
  | n + 1, t, counter =>
    let block := hmacParts P prk [t, info, [counter]]
    -- 255 blocks is the limit
    if counter + 1 = 0 then block else block ++ expandBlocks prk info n block (counter + 1)

/-- `expand` into a zeroed buffer of `len` octets. -/
def expand (prk info : Bytes) (len : Nat) : Bytes :=
  (expandBlocks P prk info ((len + 31) / 32) [] 1 ++ zeros len).take len

@[simp] theorem expand_length (prk info : Bytes) (len : Nat) : (expand P prk info len).length = len := by
  simp [expand]

def labelStart : Bytes := bytesOf "tls13 "

def expandLabel (secret label context : Bytes) (len : Nat) : Bytes :=
  let info := be16 (UInt16.ofNat len) ++ [UInt8.ofNat (6 + label.length)] ++ labelStart ++
    label.take 249 ++ [UInt8.ofNat (min context.length 255)] ++ context.take 255
  expand P secret info len

@[simp] theorem expandLabel_length (secret label context : Bytes) (len : Nat) :
    (expandLabel P secret label context len).length = len := by
  simp [expandLabel]

def deriveSecret (secret label transcript : Bytes) : Bytes :=
  expandLabel P secret label transcript 32

/-! ## The TLS 1.2 PRF -/

/-- `HMAC(secret, A(i) || seed)` for so many `i`, from `a = A(i)`. -/
def pHashBlocks (secret seed : Bytes) : Nat → Bytes → Bytes
  | 0, _ => []
  | n + 1, a => hmacParts P secret [a, seed] ++ pHashBlocks secret seed n (hmac P secret a)

def pHash (secret seed : Bytes) (len : Nat) : Bytes :=
  (pHashBlocks P secret seed ((len + 31) / 32) (hmac P secret seed)).take len

/-- Label and seed are cut to the 128 octets of their buffer. -/
def prf (secret label seed : Bytes) (len : Nat) : Bytes :=
  pHash P secret ((label ++ seed).take 128) len

theorem pHashBlocks_length (secret seed : Bytes) (n : Nat) (a : Bytes) :
    (pHashBlocks P secret seed n a).length = 32 * n := by
  induction n generalizing a with
  | zero => rfl
  | succ n ih =>
    rw [pHashBlocks, List.length_append, ih, hmacParts_length]
    omega

@[simp] theorem prf_length (secret label seed : Bytes) (len : Nat) : (prf P secret label seed len).length = len := by
  rw [prf, pHash, List.length_take, pHashBlocks_length]
  omega

/-! ## AES-GCM -/

/-- `Aes::new` takes the key. -/
def aesKey (key : Bytes) : Bool := key.length = 16 || key.length = 32

def gctr (key iv data : Bytes) : Bytes := data.zipIdx.map fun b => b.1 ^^^ P.gctr key iv b.2

/-- What `gcm_encrypt` leaves in a buffer of `room` octets. -/
def gcmEncrypt (key iv aad data : Bytes) (room : Nat) : Option Bytes :=
  if room < data.length + 16 || iv.length ≠ 12 || !aesKey key then none
  else
    let ct := gctr P key iv data
    some (ct ++ octets 16 (P.gcmTag key iv aad ct))

/-- What `gcm_decrypt` leaves in a buffer of `room` octets, once the tag is right. -/
def gcmDecrypt (key iv aad data : Bytes) (room : Nat) : Option Bytes :=
  if data.length < 16 || room < data.length - 16 || iv.length ≠ 12 || !aesKey key then none
  else
    let ct := data.take (data.length - 16)
    let tag := data.drop (data.length - 16)
    if constantTimeEq (octets 16 (P.gcmTag key iv aad ct)) tag then some (gctr P key iv ct) else none

theorem gcmEncrypt_some (key iv aad data : Bytes) (room : Nat) (fits : data.length + 16 ≤ room)
    (nonce : iv.length = 12) (aes : key.length = 16) :
    ∃ out, gcmEncrypt P key iv aad data room = some out ∧ out.length = data.length + 16 := by
  have fine : ¬ (room < data.length + 16 || iv.length ≠ 12 || !aesKey key) = true := by
    simp [aesKey]
    omega
  rw [gcmEncrypt, if_neg fine]
  exact ⟨_, rfl, by simp [gctr]⟩

theorem gcmEncrypt_length {key iv aad data out : Bytes} {room : Nat}
    (encrypted : gcmEncrypt P key iv aad data room = some out) : out.length = data.length + 16 := by
  unfold gcmEncrypt at encrypted
  split at encrypted
  · cases encrypted
  cases encrypted
  simp [gctr]

/-! ## X25519 -/

/-- The base point. -/
def x25519Base : Bytes := 9 :: zeros 31

def scalarmult (scalar u : Bytes) : Bytes := octets 32 (P.x25519 scalar u)

def publicKey (secret : Bytes) : Bytes := scalarmult P secret x25519Base

end BarryOS.Crypto
