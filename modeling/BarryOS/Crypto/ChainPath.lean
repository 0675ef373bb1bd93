import BarryOS.Crypto.Chain

/-!
# What an accepted chain is

The certificates of a message are given by a grammar, `Entries`, and so are those of the
stored octets, `Stored`: neither has a loop, a cap or a counter. `Path` is what a chain is
for: links from the end-entity certificate up to something the store vouches for.
-/

namespace BarryOS.Crypto

open Lib Der X509 List
open Bool (or_eq_true and_eq_true)

/-! ## Grammars -/

/-- What stands between a certificate and the next entry of the list. TLS 1.3 has extensions
there; a list that ends inside them has no further entry. -/
inductive Behind : Bool → Bytes → Bytes → Prop where
  | nothing (rest : Bytes) : Behind false rest rest
  | extensions (exts tail : Bytes) (n : UInt8) (m : UInt8)
      (len : exts.length = n.toNat * 256 + m.toNat) : Behind true (n :: m :: (exts ++ tail)) tail
  | cut (rest : Bytes) (short : rest.length < 2) : Behind true rest rest
  | cutInside (rest : Bytes) (n m : UInt8) (short : rest.length < n.toNat * 256 + m.toNat) :
      Behind true (n :: m :: rest) []

/-- The certificates of the list of a Certificate message, in order. -/
inductive Entries (withContext : Bool) : Bytes → List Bytes → Prop where
  | done (rest : Bytes) (short : rest.length < 3) : Entries withContext rest []
  | entry (cert rest tail : Bytes) (certs : List Bytes) (small : cert.length < 16777216)
      (behind : Behind withContext rest tail) (more : Entries withContext tail certs) :
      Entries withContext (be24 cert.length ++ cert ++ rest) (cert :: certs)

/-- The list inside the body of a Certificate message: behind a context in TLS 1.3, and behind
its length in three octets. What follows it is not read. -/
inductive Listed : Bool → Bytes → Bytes → Prop where
  | tls12 (list tail : Bytes) (small : list.length < 16777216) :
      Listed false (be24 list.length ++ list ++ tail) list
  | tls13 (n : UInt8) (context list tail : Bytes) (len : context.length = n.toNat)
      (small : list.length < 16777216) :
      Listed true (n :: context ++ (be24 list.length ++ list ++ tail)) list

/-- The certificates of stored octets, in order: each behind its length in four octets. -/
inductive Stored : Bytes → List Bytes → Prop where
  | done : Stored [] []
  | entry (cert rest : Bytes) (certs : List Bytes) (small : cert.length < 4294967296)
      (more : Stored rest certs) :
      Stored (be32 (UInt32.ofNat cert.length) ++ cert ++ rest) (cert :: certs)

theorem be32At_entry (cert rest : Bytes) (small : cert.length < 4294967296) :
    (be32At (be32 (UInt32.ofNat cert.length) ++ cert ++ rest) 0).toNat = cert.length := by
  rw [append_assoc, be32At_be32, UInt32.toNat_ofNat', Nat.mod_eq_of_lt (by omega)]

theorem drop_entry (cert rest : Bytes) : (be32 (UInt32.ofNat cert.length) ++ cert ++ rest).drop 4 = cert ++ rest := by
  rw [append_assoc, drop_left' (be32_length _)]

variable {withContext : Bool} {certs : List Bytes} {chain : Bytes}

theorem Stored.unique {certs others : List Bytes} (h : Stored chain certs)
    (h' : Stored chain others) : others = certs := by
  induction h generalizing others with
  | done =>
    generalize nothing : ([] : Bytes) = chain at h'
    cases h' with
    | done => rfl
    | entry cert rest certs small more => simp [be32] at nothing
  | entry cert rest certs small more ih =>
    generalize same : be32 (UInt32.ofNat cert.length) ++ cert ++ rest = chain at h'
    cases h' with
    | done => simp [be32] at same
    | entry cert' rest' certs' small' more' =>
      have lengths : cert.length = cert'.length := by
        rw [← be32At_entry cert rest small, same, be32At_entry cert' rest' small']
      have bodies : cert ++ rest = cert' ++ rest' := by
        rw [← drop_entry cert rest, same, drop_entry]
      obtain ⟨rfl, rfl⟩ := append_inj bodies lengths
      rw [ih more']

theorem Stored.snoc (h : Stored chain certs) (cert : Bytes) (small : cert.length < 4294967296) :
    Stored (chain ++ be32 (UInt32.ofNat cert.length) ++ cert) (certs ++ [cert]) := by
  induction h with
  | done => simpa using Stored.entry cert [] [] small .done
  | entry first rest certs small' more ih =>
    have longer := Stored.entry first _ _ small' ih
    simpa only [append_assoc, cons_append] using longer

/-! ## Storing -/

/-- Octets that begin with a length and go on for at least as many. -/
theorem be24_prefixed (b : Bytes) (long : 3 ≤ b.length) (fits : 3 + be24At b 0 ≤ b.length) :
    ((b.drop 3).take (be24At b 0)).length = be24At b 0 ∧
      b = be24 (be24At b 0) ++ (b.drop 3).take (be24At b 0) ++ (b.drop 3).drop (be24At b 0) := by
  constructor
  · rw [length_take, length_drop]
    omega
  · rw [append_assoc, take_append_drop]
    exact be24_be24At b long

theorem listOctets_listed {body list : Bytes}
    (h : listOctets body withContext = some list) : Listed withContext body list := by
  have inside : ∀ (start : Nat), start + 3 ≤ body.length → start + 3 + be24At body start ≤ body.length →
      slice body (start + 3) (start + 3 + be24At body start) = list →
      list.length < 16777216 ∧ ∃ tail, body.drop start = be24 list.length ++ list ++ tail := by
    intro start long fits same
    have here : be24At body start = be24At (body.drop start) 0 := by
      simp [be24At, octet]
    rw [here] at fits same
    have length := length_drop (i := start) (l := body)
    obtain ⟨len, split⟩ := be24_prefixed (body.drop start) (by omega) (by omega)
    have list' : list = ((body.drop start).drop 3).take (be24At (body.drop start) 0) := by
      rw [← same, slice, drop_drop, show start + 3 + be24At (body.drop start) 0 - (start + 3) =
        be24At (body.drop start) 0 by omega]
    rw [← list'] at len split
    rw [len]
    exact ⟨be24At_lt _ _, _, split⟩
  cases withContext with
  | false =>
    simp only [listOctets, Bool.false_eq_true, if_false] at h
    split at h
    · cases h
    rename_i header
    simp only [or_eq_true, decide_eq_true_eq, not_or, Nat.not_lt] at header
    split at h
    · cases h
    obtain ⟨small, tail, split⟩ := inside 0 header.2 (by omega) (by simpa using h)
    rw [drop_zero] at split
    rw [split]
    exact .tls12 list tail small
  | true =>
    simp only [listOctets, if_true] at h
    split at h
    · cases h
    rename_i header
    simp only [or_eq_true, decide_eq_true_eq, not_or, Nat.not_lt] at header
    split at h
    · cases h
    obtain ⟨small, tail, split⟩ := inside _ header.2 (by omega) (by simpa using h)
    rcases body with _ | ⟨n, rest⟩
    · simp at header
    have first : octet (n :: rest) 0 = n := rfl
    rw [first, Nat.add_comm 1, drop_succ_cons] at split
    have whole := Listed.tls13 n (rest.take n.toNat) list tail
      (by rw [length_take]; simp only [first, length_cons] at header; omega) small
    rwa [← split, cons_append, take_append_drop] at whole

theorem skipEntryExtensions_behind (withContext : Bool) (rest : Bytes) :
    Behind withContext rest (skipEntryExtensions withContext rest) := by
  unfold skipEntryExtensions
  cases withContext with
  | false => exact .nothing rest
  | true =>
    rcases rest with _ | ⟨n, _ | ⟨m, body⟩⟩
    · exact .cut [] (by decide)
    · exact .cut [n] (by simp)
    · have value : (be16At (n :: m :: body) 0).toNat = n.toNat * 256 + m.toNat := by
        rw [be16At_toNat]
        rfl
      rw [value, show 2 + (n.toNat * 256 + m.toNat) = (n.toNat * 256 + m.toNat) + 2
        by omega, drop_succ_cons, drop_succ_cons]
      by_cases fits : n.toNat * 256 + m.toNat ≤ body.length
      · have whole := Behind.extensions (body.take (n.toNat * 256 + m.toNat))
          (body.drop (n.toNat * 256 + m.toNat)) n m (by rw [length_take]; omega)
        rwa [take_append_drop] at whole
      rw [drop_of_length_le (by omega)]
      exact .cutInside body n m (by omega)

/-- A turn of the storing loop either stops for good or moves one certificate. -/
theorem certStep_cases {l next : CertList} (h : certStep withContext l = some next) :
    l.failed = false ∧ next.rest.length < l.rest.length ∧ (next.failed = true ∨
        ∃ cert rest, cert.length < 16777216 ∧ l.rest = be24 cert.length ++ cert ++ rest ∧
          Behind withContext rest next.rest ∧ next.failed = false ∧
          next.out = l.out ++ be32 (UInt32.ofNat cert.length) ++ cert ∧ next.count = l.count + 1) := by
  unfold certStep at h
  split at h
  · cases h
  rename_i going
  simp only [or_eq_true, decide_eq_true_eq, not_or, Bool.not_eq_true, Nat.not_lt] at going
  dsimp only at h
  split at h
  · cases h
    refine ⟨going.1, ?_, .inl rfl⟩
    simp only [length_nil]
    omega
  next fits =>
    simp only [or_eq_true, decide_eq_true_eq] at fits
    cases h
    have len : ((l.rest.drop 3).take (be24At l.rest 0)).length = be24At l.rest 0 := by
      rw [length_take]
      omega
    refine ⟨going.1, ?_, .inr ⟨(l.rest.drop 3).take (be24At l.rest 0),
      (l.rest.drop 3).drop (be24At l.rest 0), ?_, ?_, skipEntryExtensions_behind _ _, rfl, ?_, rfl⟩⟩
    · have shorter : (skipEntryExtensions withContext ((l.rest.drop 3).drop (be24At l.rest 0))).length
          ≤ ((l.rest.drop 3).drop (be24At l.rest 0)).length := by
        unfold skipEntryExtensions
        split
        · rw [length_drop]
          omega
        · exact le_rfl
      simp only [length_drop] at shorter ⊢
      omega
    · rw [len]
      exact be24At_lt _ _
    · rw [len, append_assoc, take_append_drop]
      exact be24_be24At _ going.2
    · rw [len]

/-- What the storing loop has done between two of its states. -/
structure Moved (withContext : Bool) (l last : CertList) : Prop where
  stuck : l.failed = true → last.failed = true
  certs : l.failed = false → last.failed = false → ∀ before, Stored l.out before → ∃ certs,
    Entries withContext l.rest certs ∧ Stored last.out (before ++ certs) ∧ last.count = l.count + certs.length

theorem Moved.stop {l : CertList} (h : certStep withContext l = none) : Moved withContext l l := by
  refine ⟨id, fun going _ before stored => ⟨[], ?_, by simpa using stored, rfl⟩⟩
  unfold certStep at h
  split at h
  next ended =>
    simp only [going, Bool.false_or, decide_eq_true_eq] at ended
    exact .done _ ended
  · dsimp only at h
    split at h <;> cases h

theorem Moved.more {l next last : CertList} (h : certStep withContext l = some next)
    (rest : Moved withContext next last) : Moved withContext l last := by
  obtain ⟨going, -, failed | ⟨cert, behindIt, small, split, behind, fine, out, count⟩⟩ := certStep_cases h
  · refine ⟨fun _ => rest.stuck failed, fun _ fine => ?_⟩
    rw [rest.stuck failed] at fine
    cases fine
  · refine ⟨fun ended => ?_, fun _ lastFine before stored => ?_⟩
    · rw [going] at ended
      cases ended
    · have stored' : Stored next.out (before ++ [cert]) := by
        rw [out]
        exact stored.snoc cert (by omega)
      obtain ⟨certs, entries, all, total⟩ := rest.certs fine lastFine _ stored'
      refine ⟨cert :: certs, ?_, by simpa using all, ?_⟩
      · rw [split]
        exact .entry cert behindIt _ certs small behind entries
      · rw [total, length_cons]
        omega

/-- What is stored are the certificates of the message, all of them and in order. -/
theorem certificateList_stored {body chain : Bytes} (h : certificateList body withContext = some chain) :
    ∃ list certs, listOctets body withContext = some list ∧ Entries withContext list certs ∧
      Stored chain certs ∧ certs ≠ [] := by
  unfold certificateList at h
  split at h
  · cases h
  rename_i list found
  dsimp only at h
  split at h
  · cases h
  rename_i fine
  simp only [or_eq_true, decide_eq_true_eq, not_or, Bool.not_eq_true] at fine
  cases h
  have ends : Moved withContext ⟨list, [], 0, false⟩
      (whileSome (fun l => l.rest.length) (certStep withContext) ⟨list, [], 0, false⟩) :=
    whileSome_ends (Moved withContext) (fun _ _ h => (certStep_cases h).2.1)
      (fun _ h => Moved.stop h) (fun _ _ _ h => Moved.more h) _
  obtain ⟨certs, entries, stored, total⟩ := ends.certs rfl fine.1 [] .done
  refine ⟨list, certs, found, entries, by simpa using stored, ?_⟩
  intro none
  rw [none] at total
  exact fine.2 total

/-! ## Reading back -/

theorem leafDer_stored {chain leaf : Bytes} (h : Stored chain (leaf :: certs)) : leafDer chain = leaf := by
  cases h with
  | entry cert rest certs small more =>
    have value := be32At_entry leaf rest small
    unfold leafDer
    rw [if_neg (by simp), value, if_neg (by simp)]
    unfold slice
    rw [drop_entry, show 4 + leaf.length - 4 = leaf.length by omega, take_left' rfl]

/-- The index loop takes the certificates in order, up to its eight places. -/
theorem indexStep_stored {x : Indexed} (h : Stored x.rest certs) :
    (indexStep x = none ∧ (certs = [] ∨ maxDepth ≤ x.ders.length)) ∨
      ∃ cert more rest, certs = cert :: more ∧ Stored rest more ∧ x.ders.length < maxDepth ∧
        indexStep x = some ⟨rest, x.ders ++ [cert]⟩ := by
  unfold indexStep
  generalize spelled : x.rest = chain at h
  cases h with
  | done => exact .inl ⟨by simp, .inl rfl⟩
  | entry cert rest more small stored =>
    by_cases full : maxDepth ≤ x.ders.length
    · exact .inl ⟨by rw [if_pos (by simp [full])], .inr full⟩
    refine .inr ⟨cert, more, rest, rfl, stored, by omega, ?_⟩
    have value := be32At_entry cert rest small
    rw [if_neg (by simp; omega), value]
    rw [drop_entry, if_neg (by simp), drop_left' rfl, take_left' rfl]

theorem indexStep_shrinks {x next : Indexed} (h : indexStep x = some next) : next.rest.length < x.rest.length := by
  unfold indexStep at h
  split at h
  · cases h
  rename_i going
  simp only [or_eq_true, decide_eq_true_eq] at going
  dsimp only at h
  split at h
  · cases h
  cases h
  simp only [length_drop]
  omega

/-- What the index loop has taken between two of its states. -/
def Took (x last : Indexed) : Prop :=
  ∀ certs, Stored x.rest certs → last.ders = x.ders ++ certs.take (maxDepth - x.ders.length)

theorem Took.stop {x : Indexed} (stopped : indexStep x = none) : Took x x := by
  intro certs stored
  rcases indexStep_stored stored with ⟨-, rfl | full⟩ | ⟨cert, more, rest, -, -, -, next⟩
  · simp
  · rw [show maxDepth - x.ders.length = 0 by omega, take_zero, append_nil]
  · rw [next] at stopped
    cases stopped

theorem Took.more {x next last : Indexed} (step : indexStep x = some next) (rest : Took next last) : Took x last := by
  intro certs stored
  rcases indexStep_stored stored with ⟨stopped, -⟩ | ⟨cert, more, tail, rfl, behind, room, taken⟩
  · rw [stopped] at step
    cases step
  rw [taken] at step
  cases step
  rw [rest more behind, length_append, append_assoc,
    show maxDepth - x.ders.length = (maxDepth - (x.ders.length + 1)) + 1 by omega]
  rfl

theorem indexed_stored (h : Stored chain certs) : indexed chain = certs.take maxDepth := by
  have ends : Took ⟨chain, []⟩ (whileSome (fun x => x.rest.length) indexStep ⟨chain, []⟩) :=
    whileSome_ends Took (fun _ _ h => indexStep_shrinks h) (fun _ h => Took.stop h) (fun _ _ _ h => Took.more h) _
  exact ends certs h

/-- What the walk of `verifyWithChain` finds when the first certificate parses. -/
def Finds (leaf : Cert) (w last : Walk) : Prop :=
  w.leaf = some leaf ∨ w.leaf = none ∧ w.truncated = false ∧ X509.parse (leafDer w.rest) = some leaf →
    last.leaf = some leaf

theorem parse_nil : X509.parse [] = none := rfl

variable {leaf : Cert}

theorem leafDer_parsed (parsed : X509.parse (leafDer chain) = some leaf) :
    4 ≤ chain.length ∧ (be32At chain 0).toNat ≤ (chain.drop 4).length ∧
      leafDer chain = (chain.drop 4).take (be32At chain 0).toNat := by
  dsimp only [leafDer] at parsed ⊢
  split at parsed
  · rw [parse_nil] at parsed
    cases parsed
  split at parsed
  · rw [parse_nil] at parsed
    cases parsed
  rename_i long fits
  rw [length_drop, if_neg long, if_neg fits, slice,
    show 4 + (be32At chain 0).toNat - 4 = (be32At chain 0).toNat by omega]
  exact ⟨by omega, by omega, rfl⟩

theorem walkStep_shrinks {w next : Walk} (h : walkStep w = some next) : next.rest.length < w.rest.length := by
  unfold walkStep at h
  split at h
  · cases h
  rename_i going
  simp only [or_eq_true, decide_eq_true_eq] at going
  dsimp only at h
  split at h
  · cases h
    simp only [length_nil]
    omega
  cases h
  simp only [length_drop]
  omega

theorem Finds.stop {w : Walk} (h : walkStep w = none) : Finds leaf w w := by
  rintro (found | ⟨-, going, parsed⟩)
  · exact found
  · obtain ⟨long, -, -⟩ := leafDer_parsed parsed
    unfold walkStep at h
    rw [if_neg (by simp [going]; omega)] at h
    dsimp only at h
    split at h <;> cases h

theorem Finds.more {w next last : Walk} (h : walkStep w = some next)
    (rest : Finds leaf next last) : Finds leaf w last := by
  unfold walkStep at h
  split at h
  · cases h
  dsimp only at h
  rintro (found | ⟨none, -, parsed⟩)
  · apply rest
    split at h <;> cases h
    · exact .inl found
    · exact .inl (by simp [found])
  · obtain ⟨-, fits, first⟩ := leafDer_parsed parsed
    rw [if_neg (by omega)] at h
    cases h
    apply rest
    rw [first] at parsed
    exact .inl (by simpa [none] using parsed)

/-- The signature is checked with the key of the certificate that was vouched for. -/
theorem walk_leaf (parsed : X509.parse (leafDer chain) = some leaf) : (walk chain).leaf = some leaf := by
  have ends : Finds leaf ⟨chain, none, false⟩ (walk chain) :=
    whileSome_ends (Finds leaf) (fun _ _ h => walkStep_shrinks h) (fun _ h => Finds.stop h)
      (fun _ _ _ h => Finds.more h) _
  exact ends (.inr ⟨rfl, rfl, parsed⟩)

/-! ## Paths -/

variable (P : Primitives)

/-- One link of a path. -/
structure IssuedBy (child issuer : Cert) : Prop where
  name : child.issuer = issuer.subject
  signed : verifySignedBy P child issuer = true
  ca : issuer.isCa = true

/-- What the store vouches for. -/
inductive Anchored (top : Cert) : Prop where
  | root (r : Root) (stored : r ∈ P.roots) (name : nameEq r.subject top.subject = true)
      (key : keyMatches r.spki top.keyAlg top.curve top.key = true) (ca : top.isCa = true)
  | signed (r : Root) (issuer : Cert) (stored : r ∈ P.roots) (name : nameEq r.subject top.issuer = true)
      (key : rootCert r = some issuer) (signed : verifySignedBy P top issuer = true)

/-- Certificates each issued by the next, up to one the store vouches for. -/
inductive Path : List Bytes → Prop where
  | top (der : Bytes) (cert : Cert) (parsed : X509.parse der = some cert) (anchored : Anchored P cert) :
      Path [der]
  | link (der : Bytes) (cert : Cert) (issuerDer : Bytes) (issuer : Cert) (rest : List Bytes)
      (parsed : X509.parse der = some cert) (parsedIssuer : X509.parse issuerDer = some issuer)
      (issued : IssuedBy P cert issuer) (more : Path (issuerDer :: rest)) :
      Path (der :: issuerDer :: rest)

theorem linkOk_iff (der issuerDer : Bytes) : linkOk P der issuerDer = true ↔
    ∃ cert issuer, X509.parse der = some cert ∧ X509.parse issuerDer = some issuer ∧ IssuedBy P cert issuer := by
  unfold linkOk
  cases X509.parse der with
  | none => simp
  | some cert =>
    cases X509.parse issuerDer with
    | none => simp
    | some issuer =>
      simp only [sameName, and_eq_true, decide_eq_true_eq, Option.some.injEq]
      constructor
      · rintro ⟨⟨name, signed⟩, ca⟩
        exact ⟨cert, issuer, rfl, rfl, name, signed, ca⟩
      · rintro ⟨_, _, rfl, rfl, name, signed, ca⟩
        exact ⟨⟨name, signed⟩, ca⟩

theorem topOk_iff (top : Cert) : topOk P top = true ↔ Anchored P top := by
  unfold topOk isTrusted signedByStoredRoot
  simp only [or_eq_true, and_eq_true, any_eq_true]
  constructor
  · rintro (⟨⟨r, stored, name, key⟩, ca⟩ | ⟨r, stored, name, made⟩)
    · exact .root r stored name key ca
    · cases key : rootCert r with
      | none => simp [key] at made
      | some issuer => exact .signed r issuer stored name key (by simpa [key] using made)
  · rintro (⟨r, stored, name, key, ca⟩ | ⟨r, issuer, stored, name, key, signed⟩)
    · exact .inl ⟨⟨r, stored, name, key⟩, ca⟩
    · exact .inr ⟨r, stored, name, by simpa [key] using signed⟩

theorem path_links {ders : List Bytes} (ne : ders ≠ []) : Path P ders ↔
    linksOk P ders = true ∧ ∃ top, X509.parse (ders.getLast ne) = some top ∧ Anchored P top := by
  induction ders with
  | nil => exact absurd rfl ne
  | cons der rest ih =>
    cases rest with
    | nil =>
      constructor
      · rintro ⟨_, cert, parsed, anchored⟩
        exact ⟨rfl, cert, parsed, anchored⟩
      · rintro ⟨-, cert, parsed, anchored⟩
        exact .top der cert parsed anchored
    | cons issuerDer more =>
      have rest := ih (by simp)
      rw [linksOk, and_eq_true, linkOk_iff]
      constructor
      · rintro (_ | ⟨_, cert, _, issuer, _, parsed, parsedIssuer, issued, behind⟩)
        obtain ⟨links, top⟩ := rest.mp behind
        exact ⟨⟨⟨cert, issuer, parsed, parsedIssuer, issued⟩, links⟩, top⟩
      · rintro ⟨⟨⟨cert, issuer, parsed, parsedIssuer, issued⟩, links⟩, top⟩
        exact .link der cert issuerDer issuer more parsed parsedIssuer issued (rest.mpr ⟨links, top⟩)

/-- `chain_trusted` looks for a path in the certificates it has indexed. -/
theorem chainTrusted_iff (chain : Bytes) : chainTrusted P chain = true ↔ Path P (indexed chain) := by
  dsimp only [chainTrusted]
  by_cases ne : indexed chain = []
  · rw [ne]
    constructor
    · exact fun h => by cases h
    · rintro ⟨⟩
  rw [path_links P ne, getLast?_eq_getLast_of_ne_nil ne]
  simp only [and_eq_true]
  cases X509.parse ((indexed chain).getLast ne) with
  | none => simp
  | some top => simp [topOk_iff]

/-- `chain_and_name_ok` over the certificates that are stored. -/
theorem chainAndNameOk_iff (stored : Stored chain certs) (host : Bytes) : chainAndNameOk P chain host = true ↔
      ∃ leafDer leaf rest, certs = leafDer :: rest ∧ X509.parse leafDer = some leaf ∧
        hostnameMatches leaf host = true ∧ Path P (certs.take maxDepth) := by
  rw [← indexed_stored stored, ← chainTrusted_iff]
  unfold chainAndNameOk
  cases certs with
  | nil =>
    cases stored
    simp [leafDer, parse_nil]
  | cons first rest =>
    rw [leafDer_stored stored]
    cases parsed : X509.parse first with
    | none => simp [parsed]
    | some leaf =>
      simp only [and_eq_true, cons.injEq]
      constructor
      · rintro ⟨trusted, name⟩
        exact ⟨first, leaf, rest, ⟨rfl, rfl⟩, parsed, name, trusted⟩
      · rintro ⟨_, leaf', _, ⟨rfl, rfl⟩, parsed', name, trusted⟩
        rw [parsed] at parsed'
        cases parsed'
        exact ⟨trusted, name⟩

theorem chainAndNameOk_true {chain host : Bytes} (ok : chainAndNameOk P chain host = true) :
    ∃ leaf, X509.parse (leafDer chain) = some leaf ∧ chainTrusted P chain = true ∧
      hostnameMatches leaf host = true := by
  unfold chainAndNameOk at ok
  split at ok
  · cases ok
  rename_i leaf parsed
  rw [and_eq_true] at ok
  exact ⟨leaf, parsed, ok.1, ok.2⟩

theorem verifyWithChain_true {chain host signed sig : Bytes} {scheme : UInt16}
    (ok : verifyWithChain P chain host signed sig scheme = true) :
    ∃ leaf, X509.parse (leafDer chain) = some leaf ∧ chainTrusted P chain = true ∧ hostnameMatches leaf host = true ∧
      signatureOk P leaf.keyAlg leaf.curve leaf.key signed sig scheme = true := by
  dsimp only [verifyWithChain] at ok
  split at ok
  · cases ok
  split at ok
  · cases ok
  rename_i found walked
  rw [and_eq_true] at ok
  obtain ⟨leaf, parsed, trusted, name⟩ := chainAndNameOk_true P ok.1
  rw [walk_leaf parsed] at walked
  cases walked
  exact ⟨found, parsed, trusted, name, ok.2⟩

end BarryOS.Crypto
