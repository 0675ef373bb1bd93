import BarryOS.Lib.Emit
import BarryOS.Lib.Memory
import BarryOS.Lib.Utf8
import BarryOS.Mem.FrameAlloc

/-!
# The PE loader (compat/pe_loader.rs)

`run` reads everything it needs from the file, which it does not write to, and writes to memory
through raw pointers. No branch depends on what is read from memory: a relocation reads a field
only to write it back. So the loader is a computation over the file that emits its stores in
order (`Loader`), and `Store.apply` says what a store does to memory. A byte-by-byte loop is one
store, of no octets when there are none to copy. Arithmetic on the 32-bit fields wraps, as it does
in a release build.

The `while` and `loop` loops have fuel; running out of it is an outcome of its own. What the
frame allocator and the stub table answer is given, and so is the exit code of the image. The
serial log is left out.
-/

namespace BarryOS.Compat.Pe

open Lib Mem

/-! ## What the loader does to memory -/

/-- One write through a raw pointer. -/
inductive Store where
  | bytes (addr : Nat) (data : Bytes)
  | add64 (addr : Nat) (delta : UInt64)
  | add32 (addr : Nat) (delta : UInt32)
  | word (addr width : Nat) (value : UInt64)
  deriving DecidableEq

namespace Store

def addr : Store → Nat
  | bytes addr _ | add64 addr _ | add32 addr _ | word addr _ _ => addr

def width : Store → Nat
  | bytes _ data => data.length
  | add64 _ _ => 8
  | add32 _ _ => 4
  | word _ width _ => width

def apply (mem : Nat → UInt8) : Store → Nat → UInt8
  | bytes addr data => storeBytes mem addr data
  | add64 addr delta =>
    storeBytes mem addr (leBytes 8 (UInt64.ofNat (leNat (loadBytes mem addr 8)) + delta).toNat)
  | add32 addr delta =>
    storeBytes mem addr (leBytes 4 (UInt32.ofNat (leNat (loadBytes mem addr 4)) + delta).toNat)
  | word addr width value => storeBytes mem addr (leBytes width value.toNat)

end Store

/-- Why the loader stops early. -/
inductive Halt where
  | error (text : String)
  | fuel
  deriving DecidableEq

/-- The stores made, and what came of it. -/
abbrev Loader := Emit Store Halt

open Emit (emit halt)

def fail {α : Type} (text : String) : Loader α := halt (.error text)

/-- `ok_or(text)?`. -/
def need {α : Type} (text : String) : Option α → Loader α := Emit.need (.error text)

/-! ## Fields, all bounds-checked -/

def u16At (d : Bytes) (o : Nat) : Option UInt16 :=
  if o + 2 ≤ d.length then some (UInt16.ofNat (leNat (slice d o (o + 2)))) else none

def u32At (d : Bytes) (o : Nat) : Option UInt32 :=
  if o + 4 ≤ d.length then some (UInt32.ofNat (leNat (slice d o (o + 4)))) else none

def u64At (d : Bytes) (o : Nat) : Option UInt64 :=
  if o + 8 ≤ d.length then some (UInt64.ofNat (leNat (slice d o (o + 8)))) else none

def dosMagic : UInt16 := 0x5A4D
def peSignature : UInt32 := 0x00004550
def optMagicPe32 : UInt16 := 0x010B
def optMagicPe32p : UInt16 := 0x020B
def machineI386 : UInt16 := 0x014C
def machineAmd64 : UInt16 := 0x8664

def relAbsolute : UInt16 := 0
def relHighlow : UInt16 := 3
def relDir64 : UInt16 := 10

/-- Everything the loader needs out of the headers. -/
structure PeInfo where
  is64 : Bool
  imageBase : UInt64
  entryRva : UInt32
  sizeOfImage : UInt32
  sizeOfHeaders : UInt32
  sectionCount : UInt16
  /-- File offset of the section table. -/
  sectionsAt : Nat
  importRva : UInt32
  importSize : UInt32
  relocRva : UInt32
  relocSize : UInt32
  deriving DecidableEq

/-- The fields of a section header that the loader looks at. -/
structure Section where
  virtualSize : UInt32
  virtualAddress : UInt32
  rawSize : UInt32
  rawPtr : UInt32
  deriving DecidableEq

/-- A header is readable as a whole or not at all: the name is in front and the characteristics last. -/
def readSection (d : Bytes) (pos : Nat) : Option Section :=
  if d.length < pos + 8 then none
  else
    match u32At d (pos + 8), u32At d (pos + 12), u32At d (pos + 16), u32At d (pos + 20), u32At d (pos + 36) with
    | some virtualSize, some virtualAddress, some rawSize, some rawPtr, some _ =>
      some ⟨virtualSize, virtualAddress, rawSize, rawPtr⟩
    | _, _, _, _, _ => none

/-- Which of the two formats it is. -/
def readMagic (magic machine : UInt16) : Loader Bool :=
  if magic = optMagicPe32p then
    if machine = machineAmd64 then pure true else fail "PE32+ but not an x86-64 machine"
  else if magic = optMagicPe32 then
    if machine = machineI386 then pure false else fail "PE32 but not an i386 machine"
  else fail "unknown optional header magic"

/-- `ImageBase`, and where the data directories start. -/
def readImageBase (d : Bytes) (is64 : Bool) (opt : Nat) : Loader (UInt64 × Nat) :=
  if is64 then do
    let base ← need "truncated optional header" (u64At d (opt + 24))
    pure (base, opt + 112)
  else do
    let base ← need "truncated optional header" (u32At d (opt + 28))
    pure (base.toUInt64, opt + 96)

/-- The optional header at `opt`, behind the COFF header. -/
def readOptional (d : Bytes) (machine sectionCount : UInt16) (optSize opt : Nat) : Loader PeInfo := do
  let magic ← need "truncated optional header" (u16At d opt)
  let is64 ← readMagic magic machine
  let entryRva ← need "truncated optional header" (u32At d (opt + 16))
  let (imageBase, dirAt) ← readImageBase d is64 opt
  let sizeOfImage ← need "truncated optional header" (u32At d (opt + 56))
  let sizeOfHeaders ← need "truncated optional header" (u32At d (opt + 60))
  -- data directory 1 is the import table, 5 the base relocations
  if sizeOfImage = 0 ∨ sizeOfImage > 64 * 1024 * 1024 then fail "implausible image size"
  else
    pure ⟨is64, imageBase, entryRva, sizeOfImage, sizeOfHeaders, sectionCount, opt + optSize,
      (u32At d (dirAt + 8)).getD 0, (u32At d (dirAt + 12)).getD 0,
      (u32At d (dirAt + 40)).getD 0, (u32At d (dirAt + 44)).getD 0⟩

/-- Parse the headers. -/
def parse (d : Bytes) : Loader PeInfo :=
  if d.length < 0x40 then fail "too small to be an executable"
  else if u16At d 0 ≠ some dosMagic then fail "not an executable (no MZ)"
  else do
    let pe ← need "bad e_lfanew" (u32At d 0x3C)
    let pe := pe.toNat
    if u32At d pe ≠ some peSignature then fail "no PE signature"
    else do
      let machine ← need "truncated COFF header" (u16At d (pe + 4))
      let sectionCount ← need "truncated COFF header" (u16At d (pe + 6))
      let optSize ← need "truncated COFF header" (u16At d (pe + 20))
      readOptional d machine sectionCount optSize.toNat (pe + 24)

/-! ## Mapping -/

/-- Where a section's raw data is and how much of it is copied. -/
def Section.raw (d : Bytes) (s : Section) : Bytes :=
  if s.rawSize = 0 ∨ s.rawPtr = 0 then []
  else
    let src := s.rawPtr.toNat
    let n := min (min s.rawSize.toNat (max s.virtualSize s.rawSize).toNat) (d.length - src)
    slice d src (src + n)

/-- Section number `i`. -/
def mapSection (d : Bytes) (info : PeInfo) (base i : Nat) : Loader Nat := do
  let s ← need "truncated section table" (readSection d (info.sectionsAt + i * 40))
  emit (.bytes (base + s.virtualAddress.toNat) (s.raw d))
  pure 1

/-- The sections; how many were mapped. -/
def mapSections (d : Bytes) (info : PeInfo) (base : Nat) : Loader Nat :=
  Emit.tally (mapSection d info base) info.sectionCount.toNat 0 0

/-- The sections that `rva_to_offset` goes through. -/
def findRva (d : Bytes) (info : PeInfo) (rva : UInt32) : List Nat → Loader Nat
  | [] => fail "rva is not inside any section"
  | i :: rest =>
    match readSection d (info.sectionsAt + i * 40) with
    | none => findRva d info rva rest
    | some s =>
      let span := max s.virtualSize s.rawSize
      if rva ≥ s.virtualAddress ∧ rva < s.virtualAddress + span then
        let off := s.rawPtr + (rva - s.virtualAddress)
        if off.toNat ≥ d.length then fail "rva points past the file" else pure off.toNat
      else findRva d info rva rest

/-- Translate a section-relative address into a file offset. -/
def rvaToOffset (d : Bytes) (info : PeInfo) (rva : UInt32) : Loader Nat :=
  if rva < info.sizeOfHeaders then pure rva.toNat
  else findRva d info rva (List.range info.sectionCount.toNat)

/-! ## Relocations -/

/-- One entry of a block for the page at `page`; how many fields it fixes. -/
def fixEntry (base : Nat) (delta : UInt64) (page : UInt32) (entry : UInt16) : Loader Nat :=
  let kind := entry >>> 12
  let offset := (entry &&& 0x0FFF).toUInt32
  let target := base + (page + offset).toNat
  if kind = relAbsolute then pure 0
  else if kind = relDir64 then do
    emit (.add64 target delta)
    pure 1
  else if kind = relHighlow then do
    emit (.add32 target delta.toUInt32)
    pure 1
  else fail "unsupported relocation type"

/-- Entry number `e` of the block at `pos`. -/
def fixEntryAt (d : Bytes) (base : Nat) (delta : UInt64) (page : UInt32) (pos e : Nat) : Loader Nat := do
  let entry ← need "bad relocation entry" (u16At d (pos + 8 + e * 2))
  fixEntry base delta page entry

/-- How many entries a block of so many octets has. -/
def entriesOf (size : UInt32) : Nat := (size.toNat - 8) / 2

/-- One turn of the `while` loop over the blocks, at a position and behind so many fixups. -/
def fixBlock (d : Bytes) (base : Nat) (delta : UInt64) (stop : Nat) (s : Nat × Nat) : Loader (Nat × Nat ⊕ Nat) :=
  if s.1 + 8 ≤ stop ∧ s.1 + 8 ≤ d.length then do
    let page ← need "bad relocation block" (u32At d s.1)
    let size ← need "bad relocation block" (u32At d (s.1 + 4))
    if size.toNat < 8 then pure (.inr s.2)
    else do
      let applied ← Emit.tally (fixEntryAt d base delta page s.1) (entriesOf size) 0 s.2
      pure (.inl (s.1 + size.toNat, applied))
  else pure (.inr s.2)

/-- `base.wrapping_sub(info.image_base)`. -/
def deltaOf (info : PeInfo) (base : Nat) : UInt64 := UInt64.ofNat base - info.imageBase

/-- Walk the base relocation table and add the load delta to every fixup. -/
def applyRelocations (d : Bytes) (info : PeInfo) (base : Nat) : Loader Nat :=
  let delta := deltaOf info base
  if info.relocRva = 0 ∨ info.relocSize = 0 then
    if delta = 0 then pure 0 else fail "no relocation table and the image cannot load at its base"
  else if delta = 0 then pure 0
  else do
    let start ← rvaToOffset d info info.relocRva
    Emit.loop .fuel (fixBlock d base delta (start + info.relocSize.toNat)) (d.length + 1) (start, 0)

/-! ## Imports -/

/-- The names `win32::resolve` knows. -/
def stubNames : List String :=
  ["GetStdHandle", "WriteFile", "WriteConsoleA", "ReadFile", "SetConsoleTextAttribute", "GetLastError",
    "SetLastError", "GetTickCount", "GetTickCount64", "GetModuleHandleA", "GetCommandLineA", "GetProcessHeap",
    "HeapAlloc", "HeapFree", "Sleep", "lstrlenA", "ExitProcess"]

/-- `to_ascii_lowercase`. -/
def lower (b : UInt8) : UInt8 := if 0x41 ≤ b ∧ b ≤ 0x5A then b + 0x20 else b

/-- `win32::resolve`; `stubs i` is the address of the stub for the i-th name. -/
def resolve (stubs : Nat → UInt64) (name : Bytes) : Option UInt64 :=
  (stubNames.findIdx? fun known => (known.toList.map fun c => lower (UInt8.ofNat c.toNat)) = name.map lower).map stubs

/-- Read a NUL-terminated string, bounded; `"?"` if it is no text. -/
def readCstr (d : Bytes) (pos max : Nat) : Bytes :=
  let stop := (((d.drop (min pos d.length)).findIdx? (· = 0)).map (pos + ·)).getD d.length
  let stop := min (min stop (pos + max)) d.length
  let text := if pos ≤ stop then slice d pos stop else []
  if validUtf8 text then text else [0x3F]

def ptrSize (info : PeInfo) : Nat := if info.is64 then 8 else 4

def thunkAt (d : Bytes) (info : PeInfo) (lt : Nat) : Option UInt64 :=
  if info.is64 then u64At d lt else (u32At d lt).map UInt32.toUInt64

/-- The address an entry of the lookup table stands for. An ordinal has none. -/
def resolveThunk (stubs : Nat → UInt64) (d : Bytes) (info : PeInfo) (entry : UInt64) : Loader UInt64 :=
  if entry &&& 0x8000000000000000 ≠ 0 then fail "an import could not be resolved"
  else do
    let hint ← rvaToOffset d info entry.toUInt32
    need "an import could not be resolved" (resolve stubs (readCstr d (hint + 2) 64))

/-- One turn of the loop over the thunks, at an offset and a place in the address table. -/
def bindThunk (stubs : Nat → UInt64) (d : Bytes) (info : PeInfo) (base : Nat) (first : UInt32) (s : Nat × Nat) :
    Loader (Nat × Nat ⊕ Nat) := do
  let entry ← need "bad thunk" (thunkAt d info s.1)
  if entry = 0 then pure (.inr s.2)
  else do
    let target ← resolveThunk stubs d info entry
    emit (.word (base + first.toNat + s.2 * ptrSize info) (ptrSize info) target)
    pure (.inl (s.1 + ptrSize info, s.2 + 1))

/-- One turn of the loop over the import descriptors, at a position and behind so many imports. -/
def bindDescriptor (stubs : Nat → UInt64) (d : Bytes) (info : PeInfo) (base : Nat) (s : Nat × Nat) :
    Loader (Nat × Nat ⊕ Nat) := do
  let name ← need "bad import descriptor" (u32At d (s.1 + 12))
  let first ← need "bad import descriptor" (u32At d (s.1 + 16))
  let original := (u32At d s.1).getD 0
  if name = 0 ∧ first = 0 then pure (.inr s.2)
  else do
    let _ ← rvaToOffset d info name
    let lt ← rvaToOffset d info (if original ≠ 0 then original else first)
    let n ← Emit.loop .fuel (bindThunk stubs d info base first) (d.length + 1) (lt, 0)
    pure (.inl (s.1 + 20, s.2 + n))

/-- Resolve every imported name and write the addresses into the import address table. -/
def bindImports (stubs : Nat → UInt64) (d : Bytes) (info : PeInfo) (base : Nat) : Loader Nat :=
  if info.importRva = 0 then pure 0
  else do
    let start ← rvaToOffset d info info.importRva
    Emit.loop .fuel (bindDescriptor stubs d info base) (d.length + 1) (start, 0)

/-! ## Running -/

/-- What a run produced, for reporting. -/
structure RunResult where
  exitCode : UInt32
  base : Nat
  sections : Nat
  imports : Nat
  relocs : Nat
  entry : Nat
  deriving DecidableEq

/-- The rest of the kernel: the addresses of the stubs, and the exit code of the image at an entry point. -/
structure Env where
  stubs : Nat → UInt64
  callImage : Nat → UInt32

def pagesOf (info : PeInfo) : Nat := (info.sizeOfImage.toNat + 4095) / 4096

/-- Map the image at `base`, relocate it and bind its imports. -/
def loadImage (env : Env) (d : Bytes) (info : PeInfo) (base : Nat) : Loader RunResult := do
  emit (.bytes base (zeros info.sizeOfImage.toNat))
  emit (.bytes base (d.take (min info.sizeOfHeaders.toNat d.length)))
  let mapped ← mapSections d info base
  let relocs ← applyRelocations d info base
  let imports ← bindImports env.stubs d info base
  let entry := base + info.entryRva.toNat
  pure ⟨env.callImage entry, base, mapped, imports, relocs, entry⟩

/-- Load and execute a PE image, with the frames that are left; control goes to the entry point when
there is a result. -/
def run (env : Env) (d : Bytes) (f : Frames) : Loader RunResult × Frames :=
  match (parse d).result with
  | .error e => (halt e, f)
  | .ok info =>
    if !info.is64 then (fail "32-bit executable: needs compatibility mode, not implemented", f)
    else
      let got := f.allocContig (pagesOf info)
      if got.1 = 0 then (fail "could not allocate the image", got.2)
      else (loadImage env d info got.1, got.2)

end BarryOS.Compat.Pe
