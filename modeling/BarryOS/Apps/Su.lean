import BarryOS.Apps.FileManager
import BarryOS.Fs.Passwd

/-!
# The password of `su`

While `SECRET` is set, `input_char` puts a star into the cell in place of the character, and Enter
reads the line back from the cells. So what `su` checks is a row of stars, one for each character on
the line, and an empty line is not checked at all.
-/

namespace BarryOS.Apps

open Lib Fs

def palWhite : UInt8 := 0
def palGreen : UInt8 := 1
def palGrey : UInt8 := 3
def palRed : UInt8 := 4

/-- Keys other than Enter. -/
abbrev Keys := List { key : UInt8 // key ≠ keyEnter }

def Keys.codes (keys : Keys) : Bytes := keys.map (·.1)

/-- The row that is edited, what Enter will do with it, and the accounts. -/
structure Console where
  cells : Nat → UInt16
  col : Nat
  inputCol : Nat
  secret : Bool
  pendingUser : Bytes
  accounts : Accounts

def printed (text : String) : Bytes := text.toList.map fun c => UInt8.ofNat c.toNat

namespace Console

/-- The row below, which is blank. -/
def newline (s : Console) : Console := { s with cells := fun _ => 0, col := 0 }

def putChar (pal : UInt8) (s : Console) (ch : UInt8) : Console :=
  let s := if s.col ≥ cols then s.newline else s
  { s with cells := Function.update s.cells s.col (pal.toUInt16 <<< 8 ||| ch.toUInt16), col := s.col + 1 }

def putStr (pal : UInt8) (text : Bytes) (s : Console) : Console :=
  text.foldl (fun s ch => if ch = 0x0A then s.newline else s.putChar pal ch) s

def prompt (s : Console) : Console :=
  let s := s.putStr palGreen (printed "$ ")
  { s with inputCol := s.col }

def inputChar (s : Console) (ch : UInt8) : Console :=
  if s.col + 1 ≥ cols then s
  else if s.secret then s.putChar palGrey 0x2A
  else s.putChar palWhite ch

def inputBackspace (s : Console) : Console :=
  if s.col ≤ s.inputCol then s
  else { s with col := s.col - 1, cells := Function.update s.cells (s.col - 1) 0 }

/-- What stands on the line behind the prompt. -/
def line (s : Console) : Bytes :=
  let start := min s.inputCol cols
  (List.range (min (max s.col start) cols - start)).map fun i => (s.cells (start + i)).toUInt8

section

-- `verify_password`, with the shadow file there is, and `process_command`.
variable (verify : Str → Str → Bool) (command : Str → Console → Console)

def finishSu (name password : Str) (s : Console) : Console :=
  match if verify name password then s.accounts.userByName name else none with
  | some u =>
    { s with accounts := s.accounts.setCurrentUid u.uid }.putStr palGreen
      (printed "now running as " ++ u.shown.bytes ++ printed "\n")
  | none => s.putStr palRed (printed "su: authentication failure\n")

def inputEnter (s : Console) : Console :=
  let text := Str.ofUtf8Or Str.empty s.line
  if s.secret then
    let t := { s.newline with secret := false }
    prompt (if s.line = [] then t else t.finishSu verify (Str.ofUtf8Or Str.empty s.pendingUser) text)
  else if s.line = [] then s.newline.prompt
  else command text s.newline

def handleKey (s : Console) (key : UInt8) : Console :=
  if key = keyEnter then s.inputEnter verify command
  else if key = keyBackspace then s.inputBackspace
  else if 0x20 ≤ key ∧ key < 0x7F then s.inputChar key
  else s

end

def cmdSu (name : Str) (s : Console) : Console :=
  if name.bytes = [] then s.putStr palRed (printed "usage: su <user>\n")
  else
    match s.accounts.userByName name with
    | none => s.putStr palRed (printed "su: no such user\n")
    | some u =>
      let s := { s with pendingUser := u.shown.bytes.take userNameRoom, secret := true }
      let s := s.putStr palGrey (printed "Password: ")
      { s with inputCol := s.col }

/-- `process_command` for `su`. -/
def su (name : Str) (s : Console) : Console :=
  (cmdSu name (s.putStr palWhite (printed "su " ++ name.bytes)).newline).prompt

/-- What keys spell, one after the other. -/
def spell (typed : Bytes) (key : UInt8) : Bytes :=
  if key = keyBackspace then typed.dropLast
  else if 0x20 ≤ key ∧ key < 0x7F then typed ++ [key]
  else typed

/-- How many stars they leave on a line that starts at a column. -/
def mask (start n : Nat) (key : UInt8) : Nat :=
  if key = keyBackspace then n - 1
  else if (0x20 ≤ key ∧ key < 0x7F) ∧ start + n + 1 < cols then n + 1
  else n

/-! ## Typing -/

@[simp] theorem putStr_accounts (pal : UInt8) (text : Bytes) (s : Console) :
    (s.putStr pal text).accounts = s.accounts := by
  unfold putStr
  induction text generalizing s with
  | nil => rfl
  | cons ch text ih =>
    rw [List.foldl_cons, ih]
    unfold putChar
    split
    · rfl
    · split <;> rfl

@[simp] theorem prompt_accounts (s : Console) : s.prompt.accounts = s.accounts := putStr_accounts _ _ s

/-- `n` stars have been typed behind a password prompt. -/
structure Masked (p s : Console) (n : Nat) : Prop where
  frame : ∃ cells, s = { p with cells := cells, col := p.inputCol + n }
  stars : ∀ i < n, (s.cells (p.inputCol + i)).toUInt8 = 0x2A
  inside : p.inputCol + n < cols

variable {verify : Str → Str → Bool} {command : Str → Console → Console} {p s : Console} {n : Nat}

theorem Masked.backspace (h : Masked p s n) : Masked p s.inputBackspace (n - 1) := by
  obtain ⟨⟨cells, rfl⟩, stars, inside⟩ := h
  unfold inputBackspace
  dsimp only at stars ⊢
  split
  · obtain rfl : n = 0 := by omega
    exact ⟨⟨cells, rfl⟩, by simp, inside⟩
  have back : p.inputCol + n - 1 = p.inputCol + (n - 1) := by omega
  rw [back]
  refine ⟨⟨_, rfl⟩, fun i lt => ?_, by omega⟩
  dsimp only
  rw [Function.update_of_ne (by omega)]
  exact stars i (by omega)

theorem Masked.char (h : Masked p s n) (secret : p.secret = true) (ch : UInt8) :
    Masked p (s.inputChar ch) (if p.inputCol + n + 1 < cols then n + 1 else n) := by
  obtain ⟨⟨cells, rfl⟩, stars, inside⟩ := h
  unfold inputChar
  by_cases full : p.inputCol + n + 1 ≥ cols
  · rw [if_pos full, if_neg (by omega)]
    exact ⟨⟨cells, rfl⟩, stars, inside⟩
  rw [if_neg full, if_pos secret, if_pos (by omega), putChar]
  rw [if_neg (Nat.not_le.mpr inside)]
  refine ⟨⟨_, rfl⟩, fun i lt => ?_, by omega⟩
  dsimp only
  rcases Nat.lt_succ_iff_lt_or_eq.mp lt with before | rfl
  · rw [Function.update_of_ne (by omega)]
    exact stars i before
  rw [Function.update_self]
  decide

theorem Masked.key (h : Masked p s n) (secret : p.secret = true) {key : UInt8} (other : key ≠ keyEnter) :
    Masked p (s.handleKey verify command key) (mask p.inputCol n key) := by
  unfold handleKey mask
  rw [if_neg other]
  split
  · exact h.backspace
  by_cases printable : 0x20 ≤ key ∧ key < 0x7F
  · simp only [printable, true_and]
    exact h.char secret key
  rw [if_neg printable, if_neg fun both => printable both.1]
  exact h

theorem Masked.keys (h : Masked p s n) (secret : p.secret = true) (keys : Keys) :
    Masked p (keys.codes.foldl (handleKey verify command) s) (keys.codes.foldl (mask p.inputCol) n) := by
  induction keys generalizing s n with
  | nil => exact h
  | cons key keys ih => exact ih (h.key secret key.2)

/-! ## Enter -/

theorem Masked.line (h : Masked p s n) : s.line = List.replicate n 0x2A := by
  obtain ⟨⟨cells, rfl⟩, stars, inside⟩ := h
  unfold Console.line
  dsimp only at stars ⊢
  rw [Nat.min_eq_left (by omega), Nat.max_eq_left (by omega), Nat.min_eq_left (by omega)]
  refine List.ext_getElem (by simp) fun i low _ => ?_
  simpa using stars i (by simpa using low)

theorem finishSu_accounts {name : Str} {u : User} (found : s.accounts.userByName name = some u) (password : Str) :
    (s.finishSu verify name password).accounts =
      if verify name password then { s.accounts with currentUid := u.uid } else s.accounts := by
  have there : (s.accounts.userByUid u.uid).isNone = false := by
    rw [Option.isNone_eq_false_iff, Accounts.userByUid, List.find?_isSome]
    exact ⟨u, List.mem_of_find?_eq_some found, by simp⟩
  by_cases accepts : verify name password = true
  · rw [finishSu, if_pos accepts, if_pos accepts, found]
    simp [Accounts.setCurrentUid, there]
  rw [finishSu, if_neg accepts, if_neg accepts]
  exact putStr_accounts ..

section

variable (verify command)

/-- The terminal after `su`, other keys and Enter. -/
def afterSu (s : Console) (name : Str) (keys : Keys) : Console :=
  handleKey verify command (keys.codes.foldl (handleKey verify command) (s.su name)) keyEnter

end

def typed (keys : Keys) : Str := Str.ofUtf8Or Str.empty (keys.codes.foldl spell [])

def starCount (keys : Keys) : Nat := keys.codes.foldl (mask 12) 0

def stars (n : Nat) : Str := Str.ofUtf8Or Str.empty (List.replicate n 0x2A)

section

variable {name : Str} {u : User} (found : s.accounts.userByName name = some u) (some' : name.bytes ≠ [])
  (short : name.bytes.length ≤ userNameRoom)

include found some' short

theorem su_asks : ∃ cells, s.su name = ⟨cells, 12, 12, true, name.bytes, s.accounts⟩ := by
  have shown : u.shown = name := (u.shown_eq name).mpr (by simpa using List.find?_some found)
  have same : (s.putStr palWhite (printed "su " ++ name.bytes)).newline.accounts = s.accounts := putStr_accounts _ _ s
  unfold su cmdSu
  rw [if_neg some', same, found]
  dsimp only
  rw [shown, List.take_of_length_le short]
  exact ⟨_, congrArg (Console.mk _ 12 12 true name.bytes) (by simp)⟩

theorem afterSu_accounts (keys : Keys) : (afterSu verify command s name keys).accounts =
    if 0 < starCount keys ∧ verify name (stars (starCount keys)) = true then
      { s.accounts with currentUid := u.uid } else s.accounts := by
  obtain ⟨cells, asked⟩ := su_asks found some' short
  have start : Masked (s.su name) (s.su name) 0 := by
    rw [asked]
    exact ⟨⟨cells, rfl⟩, fun _ none => absurd none (Nat.not_lt_zero _), show 12 < cols by decide⟩
  have masked : Masked _ (keys.codes.foldl (handleKey verify command) (s.su name)) _ := start.keys (by rw [asked]) keys
  have line := masked.line
  obtain ⟨after, frame⟩ := masked.frame
  have count : keys.codes.foldl (mask (s.su name).inputCol) 0 = starCount keys := by rw [asked, starCount]
  rw [count] at line frame
  have who : Str.ofUtf8Or Str.empty name.bytes = name := Str.ofUtf8Or_bytes _ name
  unfold afterSu
  rw [handleKey, if_pos rfl, inputEnter, line, frame, asked]
  rw [if_pos rfl, prompt_accounts, who]
  by_cases none : starCount keys = 0
  · simp [none]
    rfl
  rw [if_neg (by simpa using none)]
  refine (finishSu_accounts (by exact found) _).trans ?_
  simp only [Nat.pos_of_ne_zero none, true_and]
  rfl

end

/-- After `su` to an account that there is, other keys and Enter, the account is switched to exactly if the
password that was typed is accepted: when that is so of the stars on the line. -/
theorem su_switches_iff (verify : Str → Str → Bool) (command : Str → Console → Console) (s : Console) {name : Str}
    {u : User} (found : s.accounts.userByName name = some u) (some' : name.bytes ≠ [])
    (short : name.bytes.length ≤ userNameRoom) (keys : Keys) : (afterSu verify command s name keys).accounts =
        (if verify name (typed keys) then { s.accounts with currentUid := u.uid } else s.accounts) ↔
      s.accounts.currentUid = u.uid ∨ (0 < starCount keys ∧ verify name (stars (starCount keys)) = true ↔
          verify name (typed keys) = true) := by
  rw [afterSu_accounts found some' short keys]
  by_cases self : s.accounts.currentUid = u.uid
  · have same : { s.accounts with currentUid := u.uid } = s.accounts := by rw [← self]
    rw [same, ite_self, ite_self]
    exact iff_of_true rfl (.inl self)
  have differs : { s.accounts with currentUid := u.uid } ≠ s.accounts :=
    fun same => self (congrArg Accounts.currentUid same).symm
  rw [or_iff_right self]
  by_cases stars : 0 < starCount keys ∧ verify name (stars (starCount keys)) = true
  · by_cases accepts : verify name (typed keys) = true
    · simp [stars, accepts]
    · simp [accepts, differs]
  by_cases accepts : verify name (typed keys) = true
  · simp [accepts, differs.symm]
  · simp [stars, accepts]

/-- User 1 at the terminal, and root, whose name is one letter. -/
def guest : Console := ⟨fun _ => 0, 0, 0, false, [], ⟨[⟨0, 0, [0x72]⟩, ⟨1, 1, [0x67]⟩], 1⟩⟩

/-- A password of one star is checked as it is typed. -/
theorem su_switches_on_a_star :
    (afterSu (fun _ password => password.bytes = [0x2A]) (fun _ s => s) guest ⟨[0x72], by decide⟩
      [⟨0x2A, by decide⟩]).accounts = { guest.accounts with currentUid := 0 } :=
  (su_switches_iff (u := ⟨0, 0, [0x72]⟩) _ _ guest rfl (by decide) (by decide) [⟨0x2A, by decide⟩]).mpr
    (.inr (by decide))

/-- Any other is not. -/
theorem su_refuses_the_password : ¬ ∀ (verify : Str → Str → Bool) (command : Str → Console → Console) (s : Console)
    (name : Str) (u : User) (keys : Keys), s.accounts.userByName name = some u →
      name.bytes ≠ [] → name.bytes.length ≤ userNameRoom → (afterSu verify command s name keys).accounts =
        if verify name (typed keys) then { s.accounts with currentUid := u.uid } else s.accounts := by
  intro always
  have switched := always (fun _ password => password.bytes = [0x70]) (fun _ s => s) guest
    ⟨[0x72], by decide⟩ ⟨0, 0, [0x72]⟩ [⟨0x70, by decide⟩] rfl (by decide) (by decide)
  exact absurd switched (by decide)

end Console

end BarryOS.Apps
