import BarryOS.Lib.Bytes
import BarryOS.Lib.Memory

/-!
# Length-prefixed vectors

Writing them into a buffer of a fixed size, where a length is filled in once what it counts has been
written, and reading them back. A write outside the buffer fails. `Writes` composes, so what a
sequence of writes leaves is the concatenation of what each one adds.
-/

namespace BarryOS.Lib

open List

/-! ## Writing -/

/-- A buffer that is filled from the front. -/
structure Buf where
  mem : Nat → UInt8 := fun _ => 0
  n : Nat := 0

namespace Buf

variable (cap : Nat)

/-- What has been written. -/
def text (b : Buf) : Bytes := loadBytes b.mem 0 b.n

@[simp] theorem text_length (b : Buf) : b.text.length = b.n := by
  simp [text]

/-- Copy bytes behind the ones that are there. -/
def push (data : Bytes) (b : Buf) : Option Buf :=
  if b.n + data.length ≤ cap then some ⟨storeBytes b.mem b.n data, b.n + data.length⟩ else none

/-- Copy bytes to a place. -/
def put (pos : Nat) (data : Bytes) (b : Buf) : Option Buf :=
  if pos + data.length ≤ cap then some { b with mem := storeBytes b.mem pos data } else none

/-- Two bytes, what the body adds, and then the number of bytes that was. -/
def measured (body : Buf → Option Buf) (b : Buf) : Option Buf := do
  let begun ← b.push cap (be16 0)
  let filled ← body begun
  filled.put cap b.n (be16 (UInt16.ofNat (filled.n - b.n - 2)))

/-- `write` adds just `data`, wherever that fits. -/
def Writes (write : Buf → Option Buf) (data : Bytes) : Prop :=
  ∀ b, b.n + data.length ≤ cap → ∃ c, write b = some c ∧ c.text = b.text ++ data

theorem push_writes (data : Bytes) : Writes cap (push cap data) data := by
  intro b fits
  refine ⟨_, if_pos fits, ?_⟩
  simp only [text]
  rw [loadBytes_add, Nat.zero_add, loadBytes_store, loadBytes_store_frame _ _ _ _ _ (by omega)]

theorem put_text {pos : Nat} (data : Bytes) {before old after : Bytes} {b : Buf}
    (text : b.text = before ++ old ++ after)
    (here : before.length = pos) (same : old.length = data.length) (fits : pos + data.length ≤ cap) :
    ∃ c, b.put cap pos data = some c ∧ c.text = before ++ data ++ after := by
  refine ⟨_, if_pos fits, ?_⟩
  have n : b.n = before.length + data.length + after.length := by
    rw [← text_length, text, length_append, length_append, same]
  simp only [Buf.text] at text ⊢
  rw [n, loadBytes_add, loadBytes_add, Nat.zero_add] at text ⊢
  obtain ⟨front, last⟩ := append_inj text (by simp [same])
  obtain ⟨first, _⟩ := append_inj front (by simp)
  subst here
  rw [loadBytes_store, loadBytes_store_frame _ _ _ _ _ (by omega), loadBytes_store_frame _ _ _ _ _ (by omega),
    first, last]

variable {cap}

theorem Writes.andThen {first second : Buf → Option Buf} {d e : Bytes} (hd : Writes cap first d)
    (he : Writes cap second e) : Writes cap (first >=> second) (d ++ e) := by
  intro b fits
  rw [length_append] at fits
  obtain ⟨c, wrote, text⟩ := hd b (by omega)
  have n : c.n = b.n + d.length := by rw [← text_length, text, length_append, text_length]
  obtain ⟨last, more, text'⟩ := he c (by omega)
  refine ⟨last, ?_, by rw [text', text, append_assoc]⟩
  rw [Bind.kleisliRight, wrote]
  exact more

theorem Writes.measured {body : Buf → Option Buf} {d : Bytes} (hd : Writes cap body d) :
    Writes cap (measured cap body) (be16 (UInt16.ofNat d.length) ++ d) := by
  intro b fits
  have two : ∀ v, (be16 v).length = 2 := fun _ => rfl
  rw [length_append, two] at fits
  obtain ⟨begun, began, text⟩ := push_writes cap (be16 0) b (by rw [two]; omega)
  have n : begun.n = b.n + 2 := by rw [← text_length, text, length_append, text_length, two]
  obtain ⟨filled, fill, text'⟩ := hd begun (by omega)
  have n' : filled.n = b.n + 2 + d.length := by rw [← text_length, text', length_append, text_length, n]
  rw [text] at text'
  obtain ⟨last, patched, text''⟩ := put_text cap (be16 (UInt16.ofNat (filled.n - b.n - 2))) text'
    b.text_length (by rw [two, two]) (by rw [two]; omega)
  refine ⟨last, ?_, ?_⟩
  · simp only [Buf.measured, began, fill, Option.bind_eq_bind, Option.bind_some]
    exact patched
  · rw [text'', n', show b.n + 2 + d.length - b.n - 2 = d.length by omega, append_assoc]

end Buf

/-! ## Reading -/

/-- A number, the most significant byte first. -/
def bigEndian (bytes : Bytes) : Nat := bytes.foldl (fun n b => n * 256 + b.toNat) 0

def readBytes (len : Nat) (input : Bytes) : Option (Bytes × Bytes) :=
  if input.length < len then none else some (input.take len, input.drop len)

/-- The bytes behind a length of `width` bytes. -/
def readVector (width : Nat) (input : Bytes) : Option (Bytes × Bytes) := do
  let (len, rest) ← readBytes width input
  readBytes (bigEndian len) rest

theorem readBytes_append {len : Nat} {bytes : Bytes} (exact : bytes.length = len) (rest : Bytes) :
    readBytes len (bytes ++ rest) = some (bytes, rest) := by
  subst exact
  simp [readBytes]

theorem readVector_append {width : Nat} {len body : Bytes} (wide : len.length = width)
    (counts : bigEndian len = body.length) (rest : Bytes) :
    readVector width (len ++ (body ++ rest)) = some (body, rest) := by
  rw [readVector, readBytes_append wide]
  exact readBytes_append counts.symm rest

/-- Items up to the end of the input; each takes at least one byte, so its length bounds them. -/
def readItems {α : Type} (item : Bytes → Option (α × Bytes)) : Nat → Bytes → Option (List α)
  | _, [] => some []
  | 0, _ => none
  | n + 1, input => do
    let (a, rest) ← item input
    let more ← readItems item n rest
    some (a :: more)

theorem readItems_flatMap {α : Type} {item : Bytes → Option (α × Bytes)} {code : α → Bytes} {l : List α}
    (reads : ∀ a ∈ l, ∀ rest, item (code a ++ rest) = some (a, rest)) (filled : ∀ a ∈ l, code a ≠ []) {n : Nat}
    (enough : (l.flatMap code).length ≤ n) : readItems item n (l.flatMap code) = some l := by
  induction l generalizing n with
  | nil =>
    cases n <;> rfl
  | cons a l ih =>
    rw [forall_mem_cons] at reads filled
    rw [flatMap_cons, length_append] at enough
    have pos := length_pos_iff.mpr filled.1
    obtain ⟨n, rfl⟩ : ∃ m, n = m + 1 := ⟨n - 1, by omega⟩
    have more := ih reads.2 filled.2 (n := n) (by omega)
    have nonempty : code a ++ l.flatMap code ≠ [] := by simp [filled.1]
    rw [flatMap_cons, readItems, reads.1]
    · simp [more]
    · exact nonempty

end BarryOS.Lib
