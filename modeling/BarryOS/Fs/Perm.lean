import BarryOS.Fs.Vfs

/-!
# Users and permissions (fs/perm.rs)

The account table, who runs the shell, and the permission checks. The home directory and the
shell of an account are left out: nothing here reads them.
-/

namespace BarryOS.Fs

open Lib

/-! ## Permission bits -/

def permR : UInt16 := 4
def permW : UInt16 := 2
def permX : UInt16 := 1

/-! ## Accounts -/

structure User where
  uid : UInt32
  gid : UInt32
  name : Bytes
  deriving DecidableEq, Repr

/-- `USERS[..USER_COUNT]` and `CURRENT_UID`. -/
structure Accounts where
  users : List User
  currentUid : UInt32
  deriving DecidableEq, Repr

namespace Accounts

def userByUid (a : Accounts) (uid : UInt32) : Option User := a.users.find? (·.uid = uid)

/-- A name that is no text is `"?"`. -/
def userByName (a : Accounts) (name : Str) : Option User :=
  a.users.find? fun u => (if validUtf8 u.name then u.name else [0x3F]) = name.bytes

/-- The user and the group; a user without an account is in the group of root. -/
def currentIds (a : Accounts) : UInt32 × UInt32 :=
  (a.currentUid, ((a.userByUid a.currentUid).map User.gid).getD gidRoot)

def isRoot (a : Accounts) : Bool := a.currentUid = uidRoot

def setCurrentUid (a : Accounts) (uid : UInt32) : Accounts :=
  if (a.userByUid uid).isNone then a else { a with currentUid := uid }

end Accounts

/-! ## Checks -/

/-- The three-bit field that applies to a user. -/
def classBits (perm : Perm) (uid gid : UInt32) : UInt16 :=
  if uid = perm.uid then (perm.mode >>> 6) &&& 7
  else if gid = perm.gid then (perm.mode >>> 3) &&& 7
  else perm.mode &&& 7

/-- May the current user do `want` to this vnode? -/
def Accounts.allowed (a : Accounts) (t : Vfs) (id : UInt64) (want : UInt16) : Bool :=
  if a.isRoot then true
  else
    match t.getPerm id with
    | none => false
    | some perm => classBits perm a.currentIds.1 a.currentIds.2 &&& want = want

/-- May we create or remove entries in this directory? -/
def Accounts.mayModifyDir (a : Accounts) (t : Vfs) (dir : UInt64) : Bool := a.allowed t dir (permW ||| permX)

end BarryOS.Fs
