import Mathlib.Data.Nat.Digits.Defs
import BarryOS.Fs.Path
import BarryOS.Fs.Perm
import BarryOS.Fs.Ramfs
import BarryOS.Fs.VfsLinks
import BarryOS.Lib.Text

/-!
# The accounts file (fs/perm.rs, wm/login.rs)

`load_from_passwd` turns the lines of `/etc/passwd` into the account table that a login is looked
up in. The home directory and the shell of an account are left out.
-/

namespace BarryOS.Fs

open Lib List

def maxUsers : Nat := 8

/-- The bytes of a name that a record holds. -/
def userNameRoom : Nat := 16

/-- The bytes of the file that are read. -/
def passwdRoom : Nat := 1024

def passwdPath : Str := ⟨[0x2F, 0x65, 0x74, 0x63, 0x2F, 0x70, 0x61, 0x73, 0x73, 0x77, 0x64], by decide⟩

/-! ## Numbers -/

def isAsciiDigit (b : UInt8) : Bool := 0x30 ≤ b && b ≤ 0x39

/-- The loop of `parse_u32`, with the value so far. -/
def parseDigits : Nat → Bytes → Option Nat
  | v, [] => some v
  | v, b :: rest =>
    if isAsciiDigit b then
      -- `checked_mul` and `checked_add` fail together exactly when the result does not fit
      if v * 10 + (b - 0x30).toNat < 2 ^ 32 then parseDigits (v * 10 + (b - 0x30).toNat) rest else none
    else none

def parseU32 (s : Bytes) : Option UInt32 := if s = [] then none else (parseDigits 0 s).map UInt32.ofNat

/-- A decimal numeral and its value. -/
structure Numeral (s : Bytes) (v : Nat) : Prop where
  some : s ≠ []
  digits : ∀ b ∈ s, isAsciiDigit b = true
  value : Nat.ofDigits 10 (s.reverse.map fun b => (b - 0x30).toNat) = v

theorem parseDigits_some (s : Bytes) {v : Nat} (fits : v < 2 ^ 32) (n : Nat) :
    parseDigits v s = some n ↔ (∀ b ∈ s, isAsciiDigit b = true) ∧ n < 2 ^ 32 ∧
      v * 10 ^ s.length + Nat.ofDigits 10 (s.reverse.map fun b => (b - 0x30).toNat) = n := by
  induction s generalizing v with
  | nil => simp [parseDigits]; omega
  | cons b rest ih =>
    have step : v * 10 ^ (rest.length + 1) + Nat.ofDigits 10 ((b :: rest).reverse.map fun b => (b - 0x30).toNat) =
        (v * 10 + (b - 0x30).toNat) * 10 ^ rest.length +
          Nat.ofDigits 10 (rest.reverse.map fun b => (b - 0x30).toNat) := by
      rw [reverse_cons, map_append, Nat.ofDigits_append, length_map, length_reverse]
      simp only [map_cons, map_nil, Nat.ofDigits_singleton]
      ring
    have grows : v * 10 + (b - 0x30).toNat ≤ (v * 10 + (b - 0x30).toNat) * 10 ^ rest.length :=
      Nat.le_mul_of_pos_right _ (by positivity)
    rw [parseDigits, length_cons, step]
    split
    next digit =>
      split
      next small =>
        rw [ih small]
        simp [digit]
      constructor
      · intro h
        cases h
      · rintro ⟨_, small, value⟩
        omega
    next letter => simp [letter]

theorem parseU32_some (s : Bytes) (u : UInt32) : parseU32 s = some u ↔ Numeral s u.toNat := by
  have loop := parseDigits_some s (v := 0) (by decide) u.toNat
  rw [Nat.zero_mul, Nat.zero_add] at loop
  have fits := u.toNat_lt
  unfold parseU32
  split
  next empty =>
    constructor
    · intro h
      cases h
    · intro h
      exact absurd empty h.some
  next filled =>
    rw [Option.map_eq_some_iff]
    constructor
    · rintro ⟨n, parsed, rfl⟩
      have small := ((parseDigits_some s (v := 0) (by decide) n).mp parsed).2.1
      rw [UInt32.toNat_ofNat_of_lt' small] at loop ⊢
      obtain ⟨digits, _, value⟩ := loop.mp parsed
      exact ⟨filled, digits, value⟩
    · intro h
      exact ⟨u.toNat, loop.mpr ⟨h.digits, fits, h.value⟩, UInt32.ofNat_toNat⟩

/-! ## Lines -/

/-- A line without the blanks around it. -/
def entryText (line : Bytes) : Text := Text.trim (decodeLossy line)

/-- `name:passwd:uid:gid:gecos:home:shell`. -/
def fieldsOf (line : Bytes) : List Text := (entryText line).splitOn ':'

def nameField (line : Bytes) : Bytes := encodeUtf8 ((fieldsOf line)[0]?.getD [])

/-- A user or group number; what is no number is 0. -/
def numberField (line : Bytes) (k : Nat) : UInt32 :=
  (parseU32 (encodeUtf8 ((fieldsOf line)[k]?.getD ['0']))).getD 0

def userOf (line : Bytes) : User where
  uid := numberField line 2
  gid := numberField line 3
  name := (nameField line).take userNameRoom

def isSkipped (line : Bytes) : Bool := entryText line = [] || (entryText line).head? = some '#'

/-- The loop over the lines, with the number of records made so far. -/
def loadLines (count : Nat) : List Bytes → List User
  | [] => []
  | line :: rest =>
    if isSkipped line then loadLines count rest
    else if maxUsers ≤ count then []
    else if nameField line = [] then loadLines count rest
    else userOf line :: loadLines (count + 1) rest

/-- Read `/etc/passwd` into the account table. -/
def Accounts.loadFromPasswd (a : Accounts) (s : Ramfs) : Nat × Accounts :=
  let id := s.vfs.resolve passwdPath
  if id = 0 then (0, { a with users := [] })
  else
    match Str.ofUtf8 (s.readFile id passwdRoom) with
    | none => (0, a)
    | some text =>
      let users := loadLines 0 (text.bytes.splitOn 0x0A)
      (users.length, { a with users := users })

/-- What `name_str` gives: a name that was cut inside a character is `"?"`. -/
def User.shown (u : User) : Str := Str.ofUtf8Or ⟨[0x3F], rfl⟩ u.name

/-- The user of a login whose password `verify` accepts. -/
def Accounts.tryLogin (verify : Str → Str → Bool) (a : Accounts) (user password : Str) : Option UInt32 :=
  if user.bytes ≠ [] ∧ verify user password then (a.userByName user).map User.uid else none

theorem User.shown_eq (u : User) (name : Str) :
    u.shown = name ↔ (if validUtf8 u.name then u.name else [0x3F]) = name.bytes := by
  have bytes : u.shown.bytes = if validUtf8 u.name then u.name else [0x3F] := by
    unfold User.shown Str.ofUtf8Or
    split <;> rfl
  rw [← bytes]
  exact ⟨congrArg Str.bytes, Str.ext_bytes⟩

/-- A login that succeeds is the one of the first account that shows its name. -/
theorem Accounts.tryLogin_some {verify : Str → Str → Bool} {a : Accounts} {user password : Str} {uid : UInt32}
    (login : a.tryLogin verify user password = some uid) :
    ∃ (i : Nat) (u : User), a.users.findIdx? (fun u => u.shown = user) = some i ∧ a.users[i]? = some u ∧
      u.uid = uid := by
  unfold tryLogin userByName at login
  simp only [← User.shown_eq] at login
  split at login
  · obtain ⟨u, found, rfl⟩ := Option.map_eq_some_iff.mp login
    obtain ⟨shows, i, lt, rfl, before⟩ := find?_eq_some_iff_getElem.mp found
    refine ⟨i, _, ?_, getElem?_eq_getElem lt, rfl⟩
    rw [findIdx?_eq_some_iff_getElem]
    exact ⟨lt, shows, fun j less => by simpa using before j less⟩
  · cases login

/-! ## Entries -/

/-- A line of the file that makes a record: as far as it was read, and whole. -/
structure PasswdEntry where
  read : Bytes
  line : Bytes
  deriving DecidableEq, Repr

def isEntry (line : Bytes) : Bool := !isSkipped line && nameField line ≠ []

theorem loadLines_eq (count : Nat) (lines : List Bytes) :
    loadLines count lines = ((lines.filter isEntry).take (maxUsers - count)).map userOf := by
  induction lines generalizing count with
  | nil => simp [loadLines]
  | cons line rest ih =>
    unfold loadLines
    split
    next skipped => rw [ih, filter_cons_of_neg (by simp [isEntry, skipped])]
    rename_i kept
    split
    next full => simp [Nat.sub_eq_zero_of_le full]
    split
    next nameless => rw [ih, filter_cons_of_neg (by simp [isEntry, nameless])]
    rename_i named
    rw [ih, filter_cons_of_pos (by simp [isEntry, kept, named]),
      show maxUsers - count = (maxUsers - (count + 1)) + 1 by omega, take_succ_cons, map_cons]

/-- The entries, each with the line of the same number in the whole file. -/
def passwdEntries (s : Ramfs) : List PasswdEntry :=
  let id := s.vfs.resolve passwdPath
  match Str.ofUtf8 (s.readFile id passwdRoom) with
  | none => []
  | some text =>
    (((text.bytes.splitOn 0x0A).zipIdx.filter fun l => isEntry l.1).take maxUsers).map fun l =>
      ⟨l.1, ((s.readFile id maxFileSize).splitOn 0x0A)[l.2]?.getD []⟩

theorem passwdEntries_read (s : Ramfs) {text : Str}
    (valid : Str.ofUtf8 (s.readFile (s.vfs.resolve passwdPath) passwdRoom) = some text) :
    (passwdEntries s).map PasswdEntry.read = ((text.bytes.splitOn 0x0A).filter isEntry).take maxUsers := by
  rw [passwdEntries, valid]
  rw [map_map, map_take]
  have fst : ((text.bytes.splitOn 0x0A).zipIdx.filter (isEntry ∘ Prod.fst)).map Prod.fst =
      (text.bytes.splitOn 0x0A).filter isEntry := by
    rw [← filter_map, zipIdx_map_fst]
  exact congrArg (take maxUsers) fst

/-- The table after loading: a record for each entry, or nothing new. -/
theorem loadFromPasswd_users (a : Accounts) (s : Ramfs) :
    passwdEntries s = [] ∨ (a.loadFromPasswd s).2.users = (passwdEntries s).map fun e => userOf e.read := by
  unfold Accounts.loadFromPasswd
  dsimp only
  split
  next missing =>
    have nothing : s.readFile (s.vfs.resolve passwdPath) passwdRoom = [] := by
      simp [missing, Ramfs.readFile, Vfs.getSize]
    left
    rw [passwdEntries, nothing]
    rfl
  · split
    next invalid =>
      left
      rw [passwdEntries, invalid]
    rename_i text valid
    right
    rw [loadLines_eq, Nat.sub_zero, ← passwdEntries_read s valid, map_map]
    rfl

/-! ## Identities -/

/-- Field `k` of a line is a decimal numeral of value `v`. -/
def HasNumeral (line : Bytes) (k v : Nat) : Prop := ∃ f, (fieldsOf line)[k]? = some f ∧ Numeral (encodeUtf8 f) v

/-- A number is 0 unless its field is a numeral of a positive value that fits. -/
theorem numberField_zero (line : Bytes) (k : Nat) :
    numberField line k = 0 ↔ ¬ ∃ v, 0 < v ∧ v < 2 ^ 32 ∧ HasNumeral line k v := by
  unfold numberField
  constructor
  · rintro zero ⟨v, pos, fits, f, there, numeral⟩
    rw [← UInt32.toNat_ofNat_of_lt' fits] at numeral
    rw [there, Option.getD_some, (parseU32_some _ _).mpr numeral, Option.getD_some] at zero
    have value := congrArg UInt32.toNat zero
    rw [UInt32.toNat_ofNat_of_lt' fits] at value
    exact absurd value (by simpa using pos.ne')
  · intro none
    cases there : (fieldsOf line)[k]? with
    | none => decide
    | some f =>
      rw [Option.getD_some]
      cases parsed : parseU32 (encodeUtf8 f) with
      | none => rfl
      | some u =>
        by_contra other
        exact none ⟨u.toNat, Nat.pos_of_ne_zero fun e => other (UInt32.toNat_inj.mp e), u.toNat_lt, f, there,
          (parseU32_some _ _).mp parsed⟩

/-- Who the accounts of the file become: a record of root is one that the file asks for, and the
record that a name leads to is the one of the account with that name. -/
structure Identities (a : Accounts) (s : Ramfs) : Prop where
  uid : ∀ {i : Nat} {e : PasswdEntry} {u : User}, (passwdEntries s)[i]? = some e →
    (a.loadFromPasswd s).2.users[i]? = some u →
    u.uid = uidRoot → HasNumeral e.line 2 0
  gid : ∀ {i : Nat} {e : PasswdEntry} {u : User}, (passwdEntries s)[i]? = some e →
    (a.loadFromPasswd s).2.users[i]? = some u →
    u.gid = gidRoot → HasNumeral e.line 3 0
  name : ∀ {i : Nat} {e : PasswdEntry} {n : Str}, (passwdEntries s)[i]? = some e →
    (a.loadFromPasswd s).2.users.findIdx? (fun u => u.shown = n) = some i → nameField e.line = n.bytes
  login : ∀ {verify : Str → Str → Bool} {user password : Str} {uid : UInt32},
    (a.loadFromPasswd s).2.tryLogin verify user password = some uid →
      ∃ (i : Nat) (u : User), (a.loadFromPasswd s).2.users[i]? = some u ∧ u.uid = uid ∧
        ∀ e, (passwdEntries s)[i]? = some e → nameField e.line = user.bytes

/-- Each number of an entry was read as a positive numeral, or is the numeral 0 in the file. -/
def NumbersStand (s : Ramfs) : Prop :=
  ∀ e ∈ passwdEntries s, ∀ k ∈ [2, 3], (∃ v, 0 < v ∧ v < 2 ^ 32 ∧ HasNumeral e.read k v) ∨ HasNumeral e.line k 0

/-- An entry whose name is cut comes behind one that has just the name that is left. -/
def NamesStand (s : Ramfs) : Prop :=
  ∀ {i : Nat} {e : PasswdEntry}, (passwdEntries s)[i]? = some e → (userOf e.read).shown.bytes ≠ nameField e.line →
    ∃ (j : Nat) (e' : PasswdEntry), j < i ∧ (passwdEntries s)[j]? = some e' ∧
      (userOf e'.read).shown = (userOf e.read).shown ∧
      nameField e'.line = (userOf e.read).shown.bytes

variable (a : Accounts) (s : Ramfs)

theorem record_of_entry {i : Nat} {e : PasswdEntry} (entry : (passwdEntries s)[i]? = some e) :
    (a.loadFromPasswd s).2.users = (passwdEntries s).map (fun e => userOf e.read) ∧
      (a.loadFromPasswd s).2.users[i]? = some (userOf e.read) := by
  rcases loadFromPasswd_users a s with empty | users
  · rw [empty] at entry
    cases entry
  refine ⟨users, ?_⟩
  rw [users, getElem?_map, entry]
  rfl

theorem findIdx_shown {i : Nat} {e : PasswdEntry} (entry : (passwdEntries s)[i]? = some e) (name : Str) :
    (a.loadFromPasswd s).2.users.findIdx? (fun u => u.shown = name) = some i ↔ (userOf e.read).shown = name ∧
        ∀ (j : Nat) (e' : PasswdEntry), j < i → (passwdEntries s)[j]? = some e' → (userOf e'.read).shown ≠ name := by
  obtain ⟨users, _⟩ := record_of_entry a s entry
  obtain ⟨lt, rfl⟩ := List.getElem?_eq_some_iff.mp entry
  rw [users, findIdx?_eq_some_iff_getElem]
  constructor
  · rintro ⟨_, here, before⟩
    refine ⟨by simpa using here, ?_⟩
    rintro j e' less there
    obtain ⟨lt', rfl⟩ := List.getElem?_eq_some_iff.mp there
    simpa using before j less
  · rintro ⟨here, before⟩
    refine ⟨by simpa using lt, by simpa using here, ?_⟩
    intro j less
    have lt' : j < (passwdEntries s).length := less.trans lt
    simpa using before j _ less (getElem?_eq_getElem lt')

theorem names_stand_iff : (∀ {i : Nat} {e : PasswdEntry} {n : Str}, (passwdEntries s)[i]? = some e →
      (a.loadFromPasswd s).2.users.findIdx? (fun u => u.shown = n) = some i → nameField e.line = n.bytes) ↔
      NamesStand s := by
  constructor
  · intro h i e entry cut
    -- the name that is left leads to the first entry that shows it
    have shows : ∃ j, ∃ e' : PasswdEntry, (passwdEntries s)[j]? = some e' ∧
        (userOf e'.read).shown = (userOf e.read).shown :=
      ⟨i, e, entry, rfl⟩
    obtain ⟨e', entry', same⟩ := Nat.find_spec shows
    have named : nameField e'.line = (userOf e.read).shown.bytes := by
      apply h entry'
      rw [findIdx_shown a s entry']
      refine ⟨same, ?_⟩
      intro j e'' less entry'' same''
      exact Nat.find_min shows less ⟨e'', entry'', same''⟩
    refine ⟨Nat.find shows, e', ?_, entry', same, named⟩
    apply lt_of_le_of_ne (Nat.find_min' shows ⟨e, entry, rfl⟩)
    intro at_i
    rw [at_i, entry] at entry'
    cases entry'
    exact cut named.symm
  · intro h i e n entry found
    by_contra other
    obtain ⟨shown, first⟩ := (findIdx_shown a s entry n).mp found
    obtain ⟨j, e', less, entry', same, _⟩ := h entry (by rw [shown]; exact Ne.symm other)
    exact first j e' less entry' (same.trans shown)

/-- A number of a record is 0 only for an entry that says so, if and only if the numbers stand. -/
theorem numbers_stand_iff (k : Nat) : (∀ e ∈ passwdEntries s, numberField e.read k = 0 → HasNumeral e.line k 0) ↔
      ∀ e ∈ passwdEntries s, (∃ v, 0 < v ∧ v < 2 ^ 32 ∧ HasNumeral e.read k v) ∨ HasNumeral e.line k 0 := by
  constructor
  · intro h e he
    by_cases zero : numberField e.read k = 0
    · exact .inr (h e he zero)
    · exact .inl (not_not.mp (mt (numberField_zero e.read k).mpr zero))
  · intro h e he zero
    exact (h e he).resolve_left ((numberField_zero e.read k).mp zero)

/-- For every content of the accounts file, the accounts become who the file says they are if and
only if its numbers and names stand. -/
theorem identities_iff : Identities a s ↔ NumbersStand s ∧ NamesStand s := by
  have number : ∀ (k : Nat) (id : User → UInt32), (∀ line, id (userOf line) = numberField line k) →
      ((∀ {i : Nat} {e : PasswdEntry} {u : User}, (passwdEntries s)[i]? = some e →
        (a.loadFromPasswd s).2.users[i]? = some u → id u = 0 → HasNumeral e.line k 0) ↔
        ∀ e ∈ passwdEntries s, numberField e.read k = 0 → HasNumeral e.line k 0) := by
    intro k id reads
    constructor
    · intro h e he zero
      obtain ⟨i, entry⟩ := mem_iff_getElem?.mp he
      exact h entry (record_of_entry a s entry).2 ((reads _).trans zero)
    · intro h i e u entry record zero
      rw [(record_of_entry a s entry).2] at record
      cases record
      exact h e (mem_of_getElem? entry) ((reads _).symm.trans zero)
  have uid := (number 2 User.uid fun _ => rfl).trans (numbers_stand_iff s 2)
  have gid := (number 3 User.gid fun _ => rfl).trans (numbers_stand_iff s 3)
  have both : NumbersStand s ↔
      (∀ e ∈ passwdEntries s, (∃ v, 0 < v ∧ v < 2 ^ 32 ∧ HasNumeral e.read 2 v) ∨ HasNumeral e.line 2 0) ∧
      ∀ e ∈ passwdEntries s, (∃ v, 0 < v ∧ v < 2 ^ 32 ∧ HasNumeral e.read 3 v) ∨ HasNumeral e.line 3 0 := by
    simp only [NumbersStand, forall_mem_cons, not_mem_nil, false_imp_iff, forall_const, and_true]
    exact forall₂_and
  rw [both, ← names_stand_iff a s, ← uid, ← gid]
  constructor
  · intro h
    exact ⟨⟨h.uid, h.gid⟩, h.name⟩
  · rintro ⟨⟨uid, gid⟩, name⟩
    refine ⟨uid, gid, name, ?_⟩
    intro verify user password uid login
    obtain ⟨i, u, found, record, same⟩ := Accounts.tryLogin_some login
    exact ⟨i, u, record, same, fun e entry => name entry found⟩

/-- `eve:x::5`. -/
def eveLine : Bytes := [0x65, 0x76, 0x65, 0x3A, 0x78, 0x3A, 0x3A, 0x35]

/-- The file `/etc/passwd` with this line. -/
def evePasswd : Ramfs :=
  ((Ramfs.boot.step (.createDir (0, 0) rootId ⟨[0x65, 0x74, 0x63], by decide⟩)).step
    (.createFile (0, 0) 2 ⟨[0x70, 0x61, 0x73, 0x73, 0x77, 0x64], by decide⟩)).step
    (.write 3 eveLine)

/-- An account without a user number is root. -/
theorem missing_number_is_root : ¬ ∀ (a : Accounts) (s : Ramfs), Identities a s := by
  intro all
  have eve : (passwdEntries evePasswd)[0]? = some ⟨eveLine, eveLine⟩ := by
    decide +kernel
  have record : (Accounts.loadFromPasswd ⟨[], 0⟩ evePasswd).2.users[0]? = some ⟨0, 5, [0x65, 0x76, 0x65]⟩ := by
    decide +kernel
  obtain ⟨f, there, numeral⟩ := (all ⟨[], 0⟩ evePasswd).uid eve record rfl
  have empty : (fieldsOf eveLine)[2]? = some [] := by
    decide +kernel
  cases there.symm.trans empty
  exact numeral.some rfl

end BarryOS.Fs
