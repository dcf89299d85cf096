import Mathlib

/-!
The permissions of a destination that is there during a call of `copyfile` of `copyfile.c`: an entry
that lets the user write is put in front of its access control list before the copy, and taken out
after it.
-/

namespace LegacySupport.CopySecurity

def sIflnk : UInt32 := 0o120000
def sIwusr : UInt32 := 0o200
def sIrusr : UInt32 := 0o400
def aclEntryInherited : UInt32 := 16

/-- `ACL_WRITE_DATA`, `ACL_WRITE_ATTRIBUTES`, `ACL_WRITE_EXTATTRIBUTES`, `ACL_APPEND_DATA` and
`ACL_WRITE_SECURITY`. -/
def uberacePerms : UInt32 := 0x4 ||| 0x100 ||| 0x400 ||| 0x20 ||| 0x1000

structure Ace where
  extendedAllow : Bool
  qualifier : Nat
  permset : UInt32
  flagset : UInt32
  deriving DecidableEq

abbrev Acl := List Ace

structure Filesec where
  type : UInt32
  mode : UInt32
  acl : Option Acl
  deriving DecidableEq

structure User where
  uid : Nat
  euid : Nat

variable (user : User)

def uberace : Ace := ⟨true, user.uid, uberacePerms, 0⟩

def addUberace (acl : Acl) : Acl := uberace user :: acl

def isUberace (ace : Ace) : Bool :=
  ace.extendedAllow && ace.qualifier == user.euid && ace.permset == (uberace user).permset

def Ace.inherited (ace : Ace) : Bool := ace.flagset &&& aclEntryInherited != 0

def writable (mode : UInt32) : UInt32 :=
  if mode &&& (sIwusr ||| sIrusr) ≠ sIwusr ||| sIrusr then mode ||| (sIwusr ||| sIrusr) else mode

def copyfileFixPerms (fsec : Filesec) : Filesec :=
  { fsec with mode := writable fsec.mode, acl := fsec.acl.map (addUberace user) }

/-- The fields of the state and the flags that are read, what the source has, and what succeeds:
the change before the copy, `copyfile_open` (which may have to change the mode in order to),
`copyfile_xattr`, `copyfile_data`, the removal of the destination, the changes that
`copyfile_security` makes at once, and the change after the copy. -/
structure Call where
  stat : Bool
  acl : Bool
  nofollowDst : Bool
  delayAce : Bool
  src : Filesec
  fixes : Bool
  chmods : Bool
  opens : Bool
  attributes : Bool
  data : Bool
  unlinks : Bool
  applies : Bool
  resets : Bool

variable (call : Call)

def keptEntries : Acl → Bool × Acl
  | [] => (false, [])
  | ace :: rest =>
      if isUberace user ace then (true, ace :: rest.filter Ace.inherited)
      else (false, (ace :: rest).filter Ace.inherited)

def mergedAcl (dst : Option Acl) : Option Acl :=
  let (hasUberace, aclDst) := match dst with
    | none => (false, none)
    | some acl => ((keptEntries user acl).1, some (keptEntries user acl).2)
  if call.src.acl = none ∧ aclDst = none then none
  else
    let aclDst := match call.src.acl with
      | none => aclDst.getD []
      | some aclSrc => aclDst.getD [] ++ aclSrc.filter (!·.inherited)
    some (if !hasUberace && call.delayAce then addUberace user aclDst else aclDst)

/-- Where all cannot be changed at once, the mode and the list are set one after the other. -/
def copyfileSecurity (dst : Filesec) : Filesec :=
  match call.acl, call.stat with
  | false, false => dst
  | false, true => { dst with mode := call.src.mode }
  | true, stat =>
      { dst with
        acl := (mergedAcl user call dst.acl).or dst.acl
        mode := if stat || !call.applies then call.src.mode else dst.mode }

def copyfileStat (dst : Filesec) : Filesec := { dst with mode := call.src.mode }

def copyfileInternal (dst : Filesec) : Filesec :=
  let dst := if call.stat || call.acl then copyfileSecurity user call dst else dst
  if call.stat then copyfileStat call dst else dst

def removeUberace (sbuf : UInt32) (dst : Filesec) : Filesec :=
  match dst.acl with
  | none | some [] => dst
  | some (ace :: rest) =>
      if isUberace user ace then
        { dst with acl := if call.resets then some rest else dst.acl, mode := sbuf }
      else dst

def resetSecurity (dst : Filesec) : Filesec :=
  if call.delayAce then dst
  else removeUberace user call (if call.stat then call.src.mode else dst.mode) dst

/-- A call for a destination that is there. What is left of it is nothing where the data could not
be copied: it is then unlinked. -/
def copyfile (dst : Filesec) : Int × Option Filesec :=
  let fixed :=
    if (call.nofollowDst ∧ dst.type &&& sIflnk ≠ 0) ∨ call.fixes = false then dst
    else copyfileFixPerms user dst
  let opened := if call.chmods then { fixed with mode := call.src.mode ||| sIwusr } else fixed
  if !call.opens || !call.attributes then (-1, some opened)
  else if !call.data then (-1, if call.unlinks then none else some opened)
  else
    let copied := copyfileInternal user call opened
    let copied := if call.stat then copied else { copied with mode := dst.mode }
    (0, some (resetSecurity user call copied))

def Filesec.step (dst : Option Filesec) (call : Call) : Option Filesec :=
  dst.bind fun dst => (copyfile user call dst).2

end LegacySupport.CopySecurity
