import BarryOS.Crypto.TlsAuth12

/-!
# Nonces

The nonce of a record is the number of records sealed since the counter was last set to zero.
That happens in four handlers, for every ServerHello and Finished of TLS 1.3 and every
ServerHelloDone of TLS 1.2, however often they come. `Fresh` is what makes the numbers unique:
while nothing has been sealed a handler may start over, and after that none may.
-/

namespace BarryOS.Crypto

open Lib Tls Session List Bool

variable (P : Primitives) (env : Env)

/-- No key and nonce are used with two contents. -/
def NoncesUnique (s : Tls) : Prop :=
  s.sealed.Pairwise fun a b => a.key = b.key → a.nonce = b.nonce → a.plain = b.plain ∧ a.aad = b.aad

/-- The messages whose handlers set the client's counter to zero. -/
def Tls.resets (s : Tls) (msg : Bytes) : Bool :=
  if s.version = 12 then octet msg 0 = hsServerHelloDone
  else octet msg 0 = hsServerHello || octet msg 0 = hsFinished

/-- A message that starts the counter over finds nothing sealed, and a Finished of TLS 1.3
gives another key than the one it is answered with. -/
def Entry.steady : Entry → Bool
  | .message b m _ _ => (b.sealed.isEmpty || !b.resets m) &&
      (b.version = 12 || octet m 0 ≠ hsFinished || (finishing P m b).clientAp.key ≠ b.clientHs.key)
  | .data _ _ => true

/-! ## The tags of the calls -/

def Sealed.tag (c : Sealed) : Bytes × Bytes := (c.key, c.nonce)

def tag13 (keys : Keys) (seq : UInt32) : Bytes × Bytes := (keys.key, nonceFor keys.iv seq)

def tag12 (h : Handshake) (seq : UInt32) : Bytes × Bytes := (h.clientKey, h.clientIv ++ be64 seq.toUInt64)

theorem xor_right_injective {a b c : Bytes} (len : b.length = a.length) (len' : c.length = a.length)
    (same : zipWith (· ^^^ ·) a b = zipWith (· ^^^ ·) a c) : b = c := by
  induction a generalizing b c with
  | nil =>
    rw [eq_nil_of_length_eq_zero len, eq_nil_of_length_eq_zero len']
  | cons x a ih =>
    cases b with
    | nil => cases len
    | cons y b =>
      cases c with
      | nil => cases len'
      | cons z c =>
        simp only [zipWith_cons_cons, cons.injEq, UInt8.xor_right_inj] at same
        rw [same.1, ih (by simpa using len) (by simpa using len') same.2]

theorem tag13_injective {keys : Keys} (iv : keys.iv.length = 12) : Function.Injective (tag13 keys) := by
  intro a b same
  have nonces : nonceFor keys.iv a = nonceFor keys.iv b := congrArg Prod.snd same
  exact be64_injective (xor_right_injective (by simp [iv]) (by simp [iv]) (append_cancel_left nonces))

theorem tag12_injective (h : Handshake) : Function.Injective (tag12 h) := by
  intro a b same
  have nonces : h.clientIv ++ be64 a.toUInt64 = h.clientIv ++ be64 b.toUInt64 := congrArg Prod.snd same
  exact be64_injective (append_cancel_left nonces)

/-! ## The invariant -/

/-- In TLS 1.3, and before the version is known: at most our Finished under another key, and
behind it records counted under the application key. -/
structure Fresh13 (s : Tls) : Prop where
  version : s.version ≠ 12
  off : s.clientCipher = false ∧ s.step12 = 0
  undecided : s.version = 0 → s.sealed = [] ∧ s.haveHs = false ∧ s.clientHs.key = [] ∧ s.clientAp.key = []
  iv : s.clientAp.iv.length = 12
  calls : ∃ front rest base, s.sealed = front ++ rest ∧ front.length ≤ 1 ∧
    (∀ c ∈ front, c.key ≠ s.clientAp.key) ∧ Counted (tag13 s.clientAp) base (rest.map Sealed.tag) ∧
    s.clientSeq = base + UInt32.ofNat rest.length

/-- In TLS 1.2: everything sealed was counted under the one key. -/
structure Fresh12 (s : Tls) : Prop where
  version : s.version = 12
  cipher : s.clientCipher = true ↔ s.sealed ≠ []
  flight : s.step12 = 1 → s.sealed = []
  calls : ∃ base, Counted (tag12 s.hs12) base (s.sealed.map Sealed.tag) ∧
    s.clientSeq = base + UInt32.ofNat s.sealed.length

structure Fresh (s : Tls) : Prop where
  connecting : s.phase = .connecting → s.version = 0
  calls : Fresh13 s ∨ Fresh12 s

variable {s : Tls}

section

variable (version : s.version ≠ 12) (off : s.clientCipher = false ∧ s.step12 = 0) (decided : s.version ≠ 0)
  (iv : s.clientAp.iv.length = 12)

include version off decided iv

/-- At most one call, under another key than the application's. -/
theorem Fresh13.of_front (short : s.sealed.length ≤ 1) (apart : ∀ c ∈ s.sealed, c.key ≠ s.clientAp.key) : Fresh13 s :=
  ⟨version, off, fun zero => absurd zero decided, iv, s.sealed, [], s.clientSeq, by simp, short, apart,
    counted_nil, by simp⟩

theorem Fresh13.of_empty (empty : s.sealed = []) : Fresh13 s :=
  .of_front version off decided iv (by simp [empty]) (by simp [empty])

end

/-- Nothing has been sealed, and the cipher is off. -/
structure Unsealed12 (s : Tls) : Prop where
  version : s.version = 12
  off : s.clientCipher = false
  empty : s.sealed = []

theorem Unsealed12.fresh (h : Unsealed12 s) : Fresh12 s :=
  ⟨h.version, by simp [h.off, h.empty], fun _ => h.empty, s.clientSeq, by rw [h.empty]; exact counted_nil,
    by simp [h.empty]⟩

theorem Fresh13.nodup (h : Fresh13 s) (few : s.sealed.length ≤ 4294967296) : (s.sealed.map Sealed.tag).Nodup := by
  obtain ⟨front, rest, base, split, short, apart, counted, -⟩ := h.calls
  rw [split, length_append] at few
  rw [split, map_append, nodup_append]
  refine ⟨?_, counted.nodup (tag13_injective h.iv) (by rw [length_map]; omega), ?_⟩
  · rcases front with _ | ⟨c, _ | ⟨d, front⟩⟩
    · exact nodup_nil
    · exact nodup_singleton _
    · simp at short
  · intro a inFront b inRest same
    obtain ⟨c, member, rfl⟩ := mem_map.mp inFront
    obtain ⟨i, inside, place⟩ := getElem_of_mem inRest
    rw [counted i inside] at place
    exact apart c member ((congrArg Prod.fst same).trans (congrArg Prod.fst place).symm)

theorem Fresh12.nodup (h : Fresh12 s) (few : s.sealed.length ≤ 4294967296) : (s.sealed.map Sealed.tag).Nodup := by
  obtain ⟨base, counted, -⟩ := h.calls
  exact counted.nodup (tag12_injective s.hs12) (by rw [length_map]; exact few)

theorem noncesUnique_of_nodup (nodup : (s.sealed.map Sealed.tag).Nodup) : NoncesUnique s := by
  rw [Nodup, pairwise_map] at nodup
  exact nodup.imp fun different key nonce => absurd (Prod.ext key nonce) different

/-! ## Records out -/

/-- One more call, under the next number. -/
theorem counted_next {tag : UInt32 → Bytes × Bytes} {base seq : UInt32} {l : List Sealed} {c : Sealed}
    (counted : Counted tag base (l.map Sealed.tag)) (count : seq = base + UInt32.ofNat l.length)
    (next : c.tag = tag seq) :
    Counted tag base ((l ++ [c]).map Sealed.tag) ∧ seq + 1 = base + UInt32.ofNat (l ++ [c]).length := by
  constructor
  · rw [map_append, map_singleton, next, count, ← length_map Sealed.tag]
    exact counted.snoc
  · rw [length_append, UInt32.ofNat_add, ← UInt32.add_assoc, ← count]
    rfl

theorem Fresh13.sealing {kind : UInt8} (h : Fresh13 s) (body : Bytes) (ours : kind ≠ ctHandshake)
    (installed : (s.clientKeys kind).key ≠ []) : Fresh13 (s.sealing (s.call13 kind body)) := by
  have application : s.clientKeys kind = s.clientAp := if_neg ours
  rw [application] at installed
  obtain ⟨front, rest, base, split, short, apart, counted, seq⟩ := h.calls
  have tag : (s.call13 kind body).tag = tag13 s.clientAp s.clientSeq := by
    unfold call13
    rw [application]
    rfl
  refine { h with
    undecided := fun zero => absurd (h.undecided zero).2.2.2 installed
    calls := ⟨front, rest ++ [s.call13 kind body], base, ?_, short, apart, counted_next counted seq tag⟩ }
  rw [← append_assoc, ← split]
  rfl

theorem Fresh12.sealing (h : Fresh12 s) (kind : UInt8) (body : Bytes) (on : s.clientCipher = true) :
    Fresh12 (s.sealing (s.call12 kind body)) := by
  obtain ⟨base, counted, seq⟩ := h.calls
  exact ⟨h.version, by simp [Tls.sealing, on], fun due => absurd (h.flight due) (h.cipher.mp on), base,
    counted_next counted seq rfl⟩

theorem Fresh.sendRecord {kind : UInt8} (h : Fresh s) (body : Bytes) (ours : kind ≠ ctHandshake) :
    Fresh (s.sendRecord P env kind body).2 := by
  obtain ⟨tcp, -, ⟨-, -, same⟩ | ⟨v, on, same⟩ | ⟨v, installed, same⟩⟩ := sendRecord_cases P env kind body s
  · rw [same]
    exact ⟨h.connecting, h.calls.imp (fun h => { h with }) (fun h => { h with })⟩
  · rw [same]
    have before := h.calls.resolve_left fun h => h.version v
    exact ⟨h.connecting, .inr { before.sealing kind body on with }⟩
  · rw [same]
    have before := h.calls.resolve_right fun h => v h.version
    exact ⟨h.connecting, .inl { before.sealing body ours installed with }⟩

/-! ## Our flight in TLS 1.2 -/

/-- What goes out in the clear changes neither the counter nor the sealings. -/
def Plain (s t : Tls) : Prop := ∃ error phase transcript tcp,
  t = { s with error := error, phase := phase, transcript := transcript, tcp := tcp }

theorem sendRecord_plain (v : s.version = 12) (off : s.clientCipher = false) (kind : UInt8) (body : Bytes) :
    Plain s (s.sendRecord P env kind body).2 := by
  obtain ⟨tcp, -, ⟨-, -, same⟩ | ⟨-, on, -⟩ | ⟨not, -, -⟩⟩ := sendRecord_cases P env kind body s
  · exact ⟨_, _, _, tcp, same⟩
  · rw [off] at on
    cases on
  · exact absurd v not

theorem plain_speaks : Speaks P env fun s t => s.version = 12 → s.clientCipher = false → Plain s t where
  refl _ _ _ := ⟨_, _, _, _, rfl⟩
  trans first second v off := by
    obtain ⟨_, _, _, _, rfl⟩ := first v off
    obtain ⟨_, _, _, _, rfl⟩ := second v off
    exact ⟨_, _, _, _, rfl⟩
  fail _ _ _ _ := ⟨_, _, _, _, rfl⟩
  note _ _ _ _ := ⟨_, _, _, _, rfl⟩
  sent _ v off := sendRecord_plain P env v off _ _
  unsent kind body _ _ v off := by
    obtain ⟨_, _, _, _, same⟩ := sendRecord_plain P env v off kind body
    rw [same]
    exact ⟨_, _, _, _, rfl⟩

/-- All of the flight is in the clear, or only our Finished is not. -/
theorem sendFlight12_cases (v : s.version = 12) (off : s.clientCipher = false) : ∃ t, Plain s t ∧
    ((s.sendFlight12 P env).2 = t ∨ (s.sendFlight12 P env).2 =
      (({ t with clientCipher := true, clientSeq := 0 }).sendFinished12 P env).2) := by
  have speaks := plain_speaks P env
  have first := speaks.sendEmptyCertificate12 P env s
  have second := speaks.trans first (speaks.sendKeyExchange12 P env _)
  dsimp only [sendFlight12, andThen, sendChangeCipherSpec12]
  split
  · split
    · split
      next sent => exact ⟨_, speaks.trans second (speaks.sent sent) v off, .inr (by rw [if_pos rfl])⟩
      · rw [if_neg nofun]
        exact ⟨_, speaks.trans second (speaks.unsent _ _ 2 _) v off, .inl rfl⟩
    · exact ⟨_, second v off, .inl rfl⟩
  · exact ⟨_, first v off, .inl rfl⟩

/-- The cipher is on, the counter is zero and the first record is still to come. -/
structure Started12 (s : Tls) : Prop where
  version : s.version = 12
  on : s.clientCipher = true
  empty : s.sealed = []
  due : s.step12 ≠ 1

theorem Started12.sendRecord (h : Started12 s) (kind : UInt8) (body : Bytes) :
    Fresh12 (s.sendRecord P env kind body).2 := by
  obtain ⟨tcp, -, ⟨off, -, -⟩ | ⟨-, -, same⟩ | ⟨v, -, -⟩⟩ := sendRecord_cases P env kind body s
  · exact absurd (h.on.symm.trans (off h.version)) nofun
  · rw [same]
    refine ⟨h.version, by simp [sealing, h.on], fun one => absurd one h.due, s.clientSeq, counted_next ?_ ?_ rfl⟩
    · rw [h.empty]
      exact counted_nil
    · simp [h.empty]
  · exact absurd h.version v

theorem Started12.sendFinished12 (h : Started12 s) : Fresh12 (s.sendFinished12 P env).2 := by
  dsimp only [Tls.sendFinished12]
  split
  · exact { h.sendRecord P env _ _ with }
  · exact { h.sendRecord P env _ _ with }

theorem Unsealed12.sendFlight12 (h : Unsealed12 s) (due : s.step12 ≠ 1) : Fresh12 (s.sendFlight12 P env).2 := by
  obtain ⟨_, ⟨_, _, _, _, rfl⟩, clear | finished⟩ := sendFlight12_cases P env h.version h.off
  · rw [clear]
    exact { h.fresh with }
  · rw [finished]
    exact Started12.sendFinished12 P env ⟨h.version, rfl, h.empty, due⟩

/-! ## Messages in -/

theorem Fresh.decided (msg : Bytes) (h : Fresh s) (busy : s.phase ≠ .connecting) : Fresh (s.decideVersion msg) := by
  refine ⟨fun connecting => absurd ((decideVersion_phase msg s).symm.trans connecting) busy, ?_⟩
  unfold decideVersion
  split
  next first =>
    simp only [and_eq_true, decide_eq_true_eq] at first
    have before := h.calls.resolve_right fun h => absurd (first.2.symm.trans h.version) (by decide)
    obtain ⟨empty, -⟩ := before.undecided first.2
    split
    · exact .inl { before with version := show (13 : UInt8) ≠ 12 by decide, undecided := fun zero => by cases zero }
    · exact .inr (Unsealed12.fresh ⟨rfl, before.off.1, empty⟩)
  · exact h.calls

/-- The first record of TLS 1.3 that is sealed, if it is. -/
theorem sendRecord_first (version : s.version ≠ 12) (empty : s.sealed = []) (kind : UInt8) (body : Bytes) :
    ∃ seq calls tcp,
    (s.sendRecord P env kind body).2 = { s with clientSeq := seq, sealed := calls, tcp := tcp } ∧ calls.length ≤ 1 ∧
      ∀ c ∈ calls, c.key = (s.clientKeys kind).key := by
  obtain ⟨tcp, -, ⟨-, -, same⟩ | ⟨v, -, -⟩ | ⟨-, -, same⟩⟩ := sendRecord_cases P env kind body s
  · refine ⟨_, s.sealed, tcp, same, ?_, ?_⟩ <;> simp [empty]
  · exact absurd v version
  · refine ⟨_, s.sealed ++ [s.call13 kind body], tcp, same, ?_, ?_⟩ <;> simp [empty, call13]

theorem Fresh13.sendFinished (version : s.version ≠ 12) (off : s.clientCipher = false ∧ s.step12 = 0)
    (decided : s.version ≠ 0) (iv : s.clientAp.iv.length = 12) (empty : s.sealed = [])
    (apart : s.clientHs.key ≠ s.clientAp.key) : Fresh13 (s.sendFinished P env).2 := by
  obtain ⟨seq, calls, tcp, frame, short, keys⟩ := sendRecord_first P env (s := s.transcriptUpdate (s.clientFinished P))
    version empty ctHandshake (s.clientFinished P)
  have others : ∀ c ∈ calls, c.key ≠ s.clientAp.key := fun c member => (keys c member).trans_ne apart
  dsimp only [Tls.sendFinished]
  rw [frame]
  split
  · exact .of_front version off decided iv short others
  · exact .of_front version off decided iv short others

theorem Fresh13.message {s t : Tls} {msg : Bytes} {ok : Bool} (h : Fresh13 s) (effect : Effect P env msg s ok t)
    (decided : octet msg 0 = hsServerHello → s.version ≠ 0)
    (steady : (Entry.message s msg ok t).steady P = true) : Fresh13 t := by
  simp only [Entry.steady, resets, if_neg h.version, and_eq_true, or_eq_true, decide_eq_true_eq,
    List.isEmpty_iff, not_eq_true', or_eq_false_iff, decide_eq_false_iff_not] at steady
  obtain ⟨counts, apart⟩ := steady
  cases effect with
  | refused t refused =>
    obtain ⟨⟨_, _, _, _, _, rfl⟩, -, -⟩ := refused
    exact { h with }
  | hello v kind share read usable =>
    have empty := counts.resolve_right fun not => not.1 kind
    exact .of_empty h.version h.off (decided kind) h.iv empty
  | finished v kind keyed mac =>
    have empty := counts.resolve_right fun not => not.2 kind
    have begun : s.version ≠ 0 := fun zero => by
      rw [(h.undecided zero).2.1] at keyed
      cases keyed
    have other := (apart.resolve_left fun is => is.elim h.version fun not => not kind)
    exact Fresh13.sendFinished P env h.version h.off begun (makeKeys_length P _).2 empty other.symm
  | certificate | verify | other => exact { h with }
  | hello12 v | certificate12 v | keyExchange12 v | request12 v | done12 v | finished12 v
  | other12 v => exact absurd v h.version

theorem Fresh12.off (h : Fresh12 s) (empty : s.sealed = []) : s.clientCipher = false := by
  rw [← not_eq_true, h.cipher]
  exact fun some' => some' empty

theorem Fresh12.rekeyed {s t : Tls} (h : Fresh12 s) (version : t.version = s.version)
    (cipher : t.clientCipher = s.clientCipher) (sealed : t.sealed = s.sealed) (seq : t.clientSeq = s.clientSeq)
    (step : t.step12 = 1 → s.step12 = 1)
    (keys : t.hs12.clientKey = s.hs12.clientKey ∧ t.hs12.clientIv = s.hs12.clientIv) : Fresh12 t := by
  obtain ⟨base, counted, count⟩ := h.calls
  have tags : tag12 t.hs12 = tag12 s.hs12 := by
    unfold tag12
    rw [keys.1, keys.2]
  refine ⟨version.trans h.version, ?_, ?_, base, ?_, ?_⟩
  · rw [cipher, sealed]
    exact h.cipher
  · rw [sealed]
    exact fun one => h.flight (step one)
  · rw [tags, sealed]
    exact counted
  · rw [seq, sealed]
    exact count

theorem Fresh12.message {s t : Tls} {msg : Bytes} {ok : Bool} (h : Fresh12 s) (effect : Effect P env msg s ok t)
    (steady : (Entry.message s msg ok t).steady P = true) : Fresh12 t := by
  simp only [Entry.steady, resets, if_pos h.version, and_eq_true, or_eq_true, List.isEmpty_iff,
    not_eq_true', decide_eq_false_iff_not] at steady
  have counts := steady.1
  cases effect with
  | refused t refused =>
    obtain ⟨⟨_, _, _, _, _, rfl⟩, keys, -⟩ := refused
    exact h.rekeyed rfl rfl rfl rfl id keys
  | hello12 v kind g read =>
    have keys := serverHello_keys (msg.drop 4) { s.hs12 with clientRandom := s.clientRandom }
    rw [read] at keys
    exact h.rekeyed rfl rfl rfl rfl id keys
  | keyExchange12 v kind leaf parsed g n signed =>
    have keys := serverKeyExchange_keys P (msg.drop 4) leaf.keyAlg leaf.curve leaf.key (s.randomBytes env) s.hs12
    rw [signed] at keys
    exact h.rekeyed rfl rfl rfl rfl id keys
  | done12 v kind g derived =>
    have empty := counts.resolve_right fun not => not kind
    exact Unsealed12.fresh ⟨h.version, h.off empty, empty⟩
  | finished12 v kind length mac =>
    exact h.rekeyed rfl rfl rfl rfl (fun three => by cases three) ⟨rfl, rfl⟩
  | certificate12 | request12 | other12 => exact h.rekeyed rfl rfl rfl rfl id ⟨rfl, rfl⟩
  | hello v | certificate v | verify v | finished v | other v => exact absurd h.version v

/-! ## Every run -/

/-- While there is no key, the ClientHello goes out in the clear. -/
theorem Fresh13.sendClientHello (h : Fresh13 s) (handshaking : s.phase = .handshaking) (zero : s.version = 0) :
    Fresh (s.sendClientHello P env) := by
  obtain ⟨_, _, _, _, _, _, _, _, _, _, same, -, clear⟩ := sendClientHello_frame P env s handshaking
  obtain ⟨rfl, rfl⟩ := clear h.version (h.undecided zero).2.2.1
  rw [same]
  exact ⟨fun _ => zero, .inl { h with }⟩

theorem fresh_start (host : Bytes) (port : UInt16) (s : Tls) : Fresh (s.start env host port).2 := by
  have reset : ∀ t : Tls, t.version = 0 → t.clientCipher = false ∧ t.step12 = 0 → t.sealed = [] →
      t.haveHs = false ∧ t.clientHs.key = [] ∧ t.clientAp = {} → Fresh t := by
    intro t version off empty keys
    refine ⟨fun _ => version, .inl ⟨version.trans_ne (by decide), off, fun _ => ⟨empty, keys.1, keys.2.1, ?_⟩, ?_,
      [], [], t.clientSeq, empty, by simp, by simp, counted_nil, by simp⟩⟩
    · rw [keys.2.2]
    · rw [keys.2.2]
      rfl
  dsimp only [start]
  split
  · exact reset _ rfl ⟨rfl, rfl⟩ rfl ⟨rfl, rfl, rfl⟩
  split
  · exact reset _ rfl ⟨rfl, rfl⟩ rfl ⟨rfl, rfl, rfl⟩
  · split <;> exact reset _ rfl ⟨rfl, rfl⟩ rfl ⟨rfl, rfl, rfl⟩

/-- The step: a move keeps the numbers fresh, as long as the messages are steady. -/
theorem fresh_move {σ τ : Session} (h : σ.log.all (Entry.steady P) = true → Fresh σ.tls) (move : Move P σ τ)
    (steady : τ.log.all (Entry.steady P) = true) : Fresh τ.tls := by
  cases move with
  | message env msg alive busy =>
    have effect := dispatch_effect P env msg σ
    simp only [dispatch, all_append, all_cons, all_nil, Bool.and_true, Bool.and_eq_true] at steady
    have before := (h steady.1).decided msg busy
    refine ⟨fun connecting => absurd connecting (effect.busy P env ((decideVersion_phase msg _).trans_ne busy)), ?_⟩
    exact before.calls.imp (fun h => h.message P env effect (decideVersion_decided msg _) steady.2)
      (fun h => h.message P env effect steady.2)
  | data hdr record o s alive opened kind =>
    simp only [all_append, Bool.and_eq_true] at steady
    have before := h steady.1
    obtain ⟨_, _, _, appended⟩ := appended_frame P opened
    rw [appended]
    exact ⟨before.connecting, before.calls.imp (fun h => { h with }) (fun h => { h with })⟩
  | flight env v due =>
    have before := h steady
    have fresh := before.calls.resolve_left fun h => h.version v
    have empty := fresh.flight due
    obtain ⟨-, ended⟩ := (Flown.flies P env).sendFlight12 P env { σ.tls with step12 := 2 }
    have flown : Fresh12 (({ σ.tls with step12 := 2 }).sendFlight12 P env).2 :=
      Unsealed12.sendFlight12 P env ⟨v, fresh.off empty, empty⟩ (show (2 : UInt8) ≠ 1 by decide)
    refine ⟨fun connecting => ?_, .inr flown⟩
    rcases ended with same | failed
    · exact absurd ((before.connecting (same.symm.trans connecting)).symm.trans v) (by decide)
    rw [failed] at connecting
    cases connecting
  | hello env connecting =>
    have zero := (h steady).connecting connecting
    have before := (h steady).calls.resolve_right fun h => absurd (zero.symm.trans h.version) (by decide)
    have begun : Fresh13 { σ.tls with phase := .handshaking } := { before with }
    exact begun.sendClientHello P env rfl zero
  | record env kind body ours =>
    refine (h steady).sendRecord P env body ?_
    rcases ours with rfl | rfl
    · decide
    · decide
  | quiet t quiet =>
    have before := h steady
    obtain ⟨⟨phase, _, _, _, _, rfl⟩, ended, -⟩ := quiet
    refine ⟨fun connecting => ?_, before.calls.imp (fun h => { h with }) (fun h => { h with })⟩
    rcases ended with same | failed | closed
    · exact before.connecting (same.symm.trans connecting)
    · rw [failed] at connecting
      cases connecting
    · rw [closed.1] at connecting
      cases connecting
  | restart env host port => exact fresh_start env host port σ.tls

theorem fresh (calls : List Call) (steady : (after P calls).log.all (Entry.steady P) = true) :
    Fresh (after P calls).tls := by
  refine after_invariant P (fun σ => σ.log.all (Entry.steady P) = true → Fresh σ.tls) ?_
    (fun _ _ h move => fresh_move P h move) calls steady
  exact fun _ => ⟨fun _ => rfl, .inl ⟨by decide, ⟨rfl, rfl⟩, fun _ => ⟨rfl, rfl, rfl, rfl⟩, rfl, [], [], 0, rfl,
    by decide, by simp, counted_nil, rfl⟩⟩

/-- In every run whose messages are steady and that seals at most 2^32 records, no key and
nonce are used twice. -/
theorem nonces_unique (calls : List Call) (steady : (after P calls).log.all (Entry.steady P) = true)
    (few : (after P calls).tls.sealed.length ≤ 4294967296) : NoncesUnique (after P calls).tls := by
  refine noncesUnique_of_nodup ?_
  rcases (fresh P calls steady).calls with tls13 | tls12
  · exact tls13.nodup few
  · exact tls12.nodup few

/-- A TLS 1.2 handshake in good order and two records of data. -/
def honestSends : List Call := serverSays honest12 ++ [⟨wireEnv, .send [0x41]⟩, ⟨wireEnv, .send [0x42]⟩]

theorem honestSends_unique : (after samplePrimitives honestSends).tls.sealed.length = 3 ∧
    NoncesUnique (after samplePrimitives honestSends).tls :=
  have count : (after samplePrimitives honestSends).tls.sealed.length = 3 := by decide +kernel
  ⟨count, nonces_unique samplePrimitives honestSends (by decide +kernel) (by rw [count]; decide)⟩

/-! ## A ServerHello that comes again -/

variable {n : Nat}

theorem sendRecord_talking {ip : Net.Ip} (talking : Net.Tcp.Talking ip n s.tcp) (up : ∀ i, env.tcp.sends i = true)
    (kind : UInt8) (body : Bytes) : ∃ m, Net.Tcp.Talking ip m (s.sendRecord P env kind body).2.tcp := by
  have same : (s.recordOut P kind body).2.tcp = s.tcp := by
    rcases recordOut_cases P kind body s with ⟨-, -, out⟩ | ⟨-, -, out⟩ | ⟨-, -, out⟩
    · rw [out]
    · rw [out]
      rfl
    · rw [out]
      rfl
  unfold sendRecord handOver
  cases (s.recordOut P kind body).1 with
  | none => exact ⟨n, by rw [same]; exact talking⟩
  | some octets =>
    rw [same]
    exact talking.send_any env.tcp up octets

variable {σ : Session}

/-- In an established TLS 1.3 connection the caller's data is sealed under the next number,
whatever becomes of the record. -/
theorem Reachable.sent13 (h : Reachable P σ) (established : σ.tls.established = true)
    (v : σ.tls.version ≠ 12) (installed : σ.tls.clientAp.key ≠ [])
    (talking : Net.Tcp.Talking serverIp n σ.tls.tcp) (data : Bytes) : ∃ tcp m,
      Net.Tcp.Talking serverIp m tcp ∧ tcp.pending = σ.tls.tcp.pending ∧
      Reachable P { σ with tls := { σ.tls.sealing (σ.tls.call13 ctApplicationData data) with tcp := tcp } } := by
  have step : σ.step P ⟨wireEnv, .send data⟩ =
      { σ with tls := (σ.tls.sendRecord P wireEnv ctApplicationData data).2 } := by
    show { σ with tls := (σ.tls.send P wireEnv data).2 } = _
    unfold send
    rw [established, if_neg (by decide)]
  have reached := h.step P ⟨wireEnv, .send data⟩
  obtain ⟨m, talking'⟩ := sendRecord_talking P wireEnv talking (fun _ => rfl) ctApplicationData data
  obtain ⟨_, _, _, frame, rx, -⟩ := sendRecord_frame P wireEnv ctApplicationData data σ.tls
  obtain ⟨tcp, -, ⟨-, none, -⟩ | ⟨v', -, -⟩ | ⟨-, -, same⟩⟩ := sendRecord_cases P wireEnv ctApplicationData data σ.tls
  · exact absurd (none v) installed
  · exact absurd v' v
  · rw [same] at frame talking'
    rw [step, same] at reached
    refine ⟨tcp, m, talking', ?_, reached⟩
    have transport := congrArg Tls.tcp frame
    exact Net.Tcp.Tcb.pending_of_rx ((congrArg Net.Tcp.Tcb.rx transport).trans rx)

/-- A ServerHello in the clear is taken again in an established connection. -/
theorem Reachable.hello13_again (usable : Usable P) (h : Reachable P σ)
    (established : σ.tls.phase = .established) (v : σ.tls.version = 13)
    (talking : Net.Tcp.Talking serverIp n σ.tls.tcp) (empty : σ.tls.tcp.pending = []) :
    ∃ tcp log, Net.Tcp.Talking serverIp n tcp ∧ Reachable P ⟨{ helloed13 P σ.tls with tcp := tcp }, log⟩ := by
  have taken : ∀ tcp, takeRecords P wireEnv [⟨ctHandshake, hello13⟩] (σ.over tcp) =
      ⟨helloed13 P (σ.over tcp).tls, σ.log ++ [.message { (σ.over tcp).tls with version := 13 } hello13 true
        (helloed13 P (σ.over tcp).tls)]⟩ := by
    intro tcp
    have clear : InClear ctHandshake (σ.over tcp).tls := .inl ⟨v.trans_ne (by decide), by decide⟩
    show takeRecord P wireEnv ⟨ctHandshake, hello13⟩ (σ.over tcp) = _
    rw [takeRecord_message P wireEnv hello13_whole clear]
    exact congrArg Prod.snd (dispatch_hello13 P wireEnv usable (σ.over tcp).tls σ.log (.inr v))
  obtain ⟨tcp, tcp', -, talking', -, reached⟩ := h.taken P (.inr established) talking empty [⟨ctHandshake, hello13⟩]
    (fun r member => by
      obtain rfl := mem_singleton.mp member
      exact ⟨by decide, by decide +kernel⟩)
    (by decide +kernel)
    (fun tcp open' => by
      have first : takeRecord P wireEnv ⟨ctHandshake, hello13⟩ (σ.over tcp) = _ := taken tcp
      simp only [Lasts, taken, first]
      exact ⟨⟨established.trans_ne Phase.noConfusion, rfl, trivial⟩, open',
        fun twelve => absurd twelve (show (13 : UInt8) ≠ 12 by decide)⟩)
  rw [taken] at reached
  exact ⟨tcp', _, talking', reached⟩

/-- One record of data, the ServerHello once more, and the next record has the number of the
first. -/
theorem Reachable.reused (usable : Usable P) (h : Reachable P σ)
    (established : σ.tls.established = true) (v : σ.tls.version = 13) (installed : σ.tls.clientAp.key ≠ [])
    (zero : σ.tls.clientSeq = 0) (talking : Net.Tcp.Talking serverIp n σ.tls.tcp)
    (empty : σ.tls.tcp.pending = []) : ∃ calls, ¬ NoncesUnique (after P calls).tls := by
  have twelve : σ.tls.version ≠ 12 := v.trans_ne (by decide)
  obtain ⟨tcp₁, _, talking₁, pending, reached₁⟩ := h.sent13 P established twelve installed talking [0x41]
  obtain ⟨tcp₂, log, talking₂, reached₂⟩ :=
    reached₁.hello13_again P usable (established_phase established) v talking₁ (pending.trans empty)
  obtain ⟨tcp₃, -, -, -, calls, after⟩ :=
    reached₂.sent13 P established (show (13 : UInt8) ≠ 12 by decide) installed talking₂ [0x42]
  refine ⟨calls, fun unique => ?_⟩
  rw [after] at unique
  have two := (pairwise_append.mp unique).2.2 (σ.tls.call13 ctApplicationData [0x41])
    (mem_append_right _ (mem_singleton_self _)) _ (mem_singleton_self _)
  have nonce : nonceFor σ.tls.clientAp.iv σ.tls.clientSeq = nonceFor σ.tls.clientAp.iv 0 := by rw [zero]
  have plain : [0x41, ctApplicationData] = [0x42, ctApplicationData] := (two rfl nonce).1
  exact absurd plain (by decide)

/-- For any primitives under which the base point is a usable share, a nonce comes twice. -/
theorem nonce_reused : ¬ ∃ P : Primitives, Usable P ∧ ∀ calls, NoncesUnique (after P calls).tls := by
  rintro ⟨P, usable, always⟩
  obtain ⟨tcp, t, tcp₀, talking, empty, reached⟩ := forged13_reachable P usable
  have installed : (finishedWith P t (helloed13 P (greeted P tcp))).clientAp.key ≠ [] :=
    ne_nil_of_length_pos (by rw [finishedWith_clientAp]; decide)
  obtain ⟨calls, reused⟩ := reached.reused P usable rfl rfl installed rfl talking empty
  exact reused (always calls)

end BarryOS.Crypto
