import BarryOS.Fs.Vfs
import BarryOS.Lib.Extent
import BarryOS.Lib.Memory

/-!
# The RAM filesystem (fs/ramfs.rs)

One flat byte pool with a bump pointer and a short free list. `free` is
`FREE[..FREE_COUNT]`. The pool's bytes are a function on addresses: nothing in
`write_file` stops a store outside the array, so that they stay inside is a result
and not a property of the type. Sums of offsets wrap, as they do in a release build.
-/

namespace BarryOS.Fs

open Lib

def dataPoolSize : Nat := 256 * 1024

def freeMax : Nat := 32

structure FreeBlock where
  off : UInt64
  size : UInt64
  deriving DecidableEq, Repr

structure Pool where
  bytes : Nat → UInt8 := fun _ => 0
  /-- The bump pointer. It starts at 1 so that offset 0 can mean "no allocation". -/
  nextOffset : UInt64 := 1
  free : List FreeBlock := []

namespace Pool

/-- First fit over the free list. -/
def fit (p : Pool) (n : UInt64) : Option Nat := p.free.findIdx? fun b => b.size ≥ n

/-- Reserve `n` bytes. Returns the offset, or 0 on failure; the bump pointer moves also
when the pool is exhausted. -/
def allocData (p : Pool) (n : UInt64) : UInt64 × Pool :=
  if n = 0 then (0, p)
  else
    match p.fit n with
    | some i =>
      let b := p.free.getD i ⟨0, 0⟩
      if b.size > n then (b.off, { p with free := p.free.set i ⟨b.off + n, b.size - n⟩ })
      else (b.off, { p with free := swapRemove p.free i })
    | none =>
      let off := p.nextOffset
      let p := { p with nextOffset := p.nextOffset + n }
      if off + n > UInt64.ofNat dataPoolSize then (0, p) else (off, p)

def bytesFree (p : Pool) : UInt64 :=
  p.free.foldl (fun total b => total + b.size) (UInt64.ofNat dataPoolSize - p.nextOffset)

/-- Release a block back to the free list; a block that finds the list full is leaked. -/
def freeData (p : Pool) (off size : UInt64) : Pool :=
  if off = 0 ∨ size = 0 then p
  else if p.free.length ≥ freeMax then p
  else { p with free := p.free ++ [⟨off, size⟩] }

end Pool

structure Ramfs where
  vfs : Vfs
  pool : Pool

namespace Ramfs

/-- The state at boot: `vfs::init` on the blank table, and nothing allocated. -/
def boot : Ramfs := ⟨Vfs.reset, {}⟩

/-- The number of bytes `write_file` takes. -/
def writeLen (data : Bytes) : Nat := min data.length maxFileSize

/-- The last lines of `write_file`: the bytes go to the pool. -/
def fill (s : Ramfs) (offset : UInt64) (data : Bytes) : Ramfs :=
  { s with pool := { s.pool with
      bytes := storeBytes s.pool.bytes offset.toNat (data.take maxFileSize) } }

/-- Write content to a vnode, growing the allocation when needed. -/
def writeFile (s : Ramfs) (id : UInt64) (data : Bytes) : Nat × Ramfs :=
  match s.vfs.findSlot id with
  | none => (0, s)
  | some _ =>
    let len := UInt64.ofNat (writeLen data)
    let oldOff := s.vfs.getDataOffset id
    let oldCap := s.vfs.getCapacity id
    if len = 0 then
      let pool := if oldCap > 0 then s.pool.freeData oldOff oldCap else s.pool
      (0, ⟨s.vfs.setDataFull id 0 0 0, pool⟩)
    else if oldCap ≥ len then
      (len.toNat, fill { s with vfs := s.vfs.setData id oldOff len } oldOff data)
    else
      let (off, pool) := s.pool.allocData len
      if off = 0 then (0, { s with pool := pool })
      else
        let pool := if oldCap > 0 then pool.freeData oldOff oldCap else pool
        (len.toNat, fill ⟨s.vfs.setDataFull id off len len, pool⟩ off data)

/-- Read content from a vnode into a buffer of `room` bytes. -/
def readFile (s : Ramfs) (id : UInt64) (room : Nat) : Bytes :=
  let size := s.vfs.getSize id
  let offset := s.vfs.getDataOffset id
  if size = 0 ∨ offset = 0 then []
  else loadBytes s.pool.bytes offset.toNat (min size.toNat room)

/-- Read part of a file starting at `offset`. -/
def readFileAt (s : Ramfs) (id offset : UInt64) (room : Nat) : Bytes :=
  let size := s.vfs.getSize id
  let base := s.vfs.getDataOffset id
  if base = 0 ∨ offset ≥ size then []
  else loadBytes s.pool.bytes (base + offset).toNat (min (size - offset).toNat room)

def createFileIn (ids : UInt32 × UInt32) (s : Ramfs) (parent : UInt64) (name : Str) :
    UInt64 × Ramfs :=
  let (id, vfs) := Vfs.createFile ids s.vfs parent name
  (id, { s with vfs := vfs })

def createDirIn (ids : UInt32 × UInt32) (s : Ramfs) (parent : UInt64) (name : Str) :
    UInt64 × Ramfs :=
  let (id, vfs) := Vfs.createDir ids s.vfs parent name
  (id, { s with vfs := vfs })

/-- Delete a file (or empty directory), releasing its data pool bytes. -/
def unlink (s : Ramfs) (parent : UInt64) (name : Str) : Bool × Ramfs :=
  let id := s.vfs.lookup parent name
  if id = 0 then (false, s)
  else
    let cap := s.vfs.getCapacity id
    let off := s.vfs.getDataOffset id
    let (ok, vfs) := s.vfs.unlink parent name
    if !ok then (false, { s with vfs := vfs })
    else (true, ⟨vfs, if cap > 0 then s.pool.freeData off cap else s.pool⟩)

def rename (s : Ramfs) (parent : UInt64) (old new : Str) : Bool × Ramfs :=
  let (ok, vfs) := s.vfs.rename parent old new
  (ok, { s with vfs := vfs })

end Ramfs

/-! ## Calls -/

inductive RamfsOp where
  | createFile (ids : UInt32 × UInt32) (parent : UInt64) (name : Str)
  | createDir (ids : UInt32 × UInt32) (parent : UInt64) (name : Str)
  | write (id : UInt64) (data : Bytes)
  | rename (parent : UInt64) (old new : Str)
  | unlink (parent : UInt64) (name : Str)
  deriving DecidableEq, Repr

def Ramfs.step (s : Ramfs) : RamfsOp → Ramfs
  | .createFile ids parent name => (Ramfs.createFileIn ids s parent name).2
  | .createDir ids parent name => (Ramfs.createDirIn ids s parent name).2
  | .write id data => (s.writeFile id data).2
  | .rename parent old new => (s.rename parent old new).2
  | .unlink parent name => (s.unlink parent name).2

end BarryOS.Fs
