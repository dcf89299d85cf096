import LegacySupport.CopyData
import LegacySupport.CopyOpen

/-!
`copyfile` of `copyfile.c` with `COPYFILE_DATA`, for regular files: the names, the descriptors and
the status that a state keeps from one call to the next.
-/

namespace LegacySupport.Copyfile

def maxpathlen : Nat := 1024
def emfile : Errno := 24
def enametoolong : Errno := 63

structure PathName where
  bytes : List UInt8
  ended : 0 ∉ bytes
  deriving DecidableEq

/-- `strncmp` up to `MAXPATHLEN` finds no difference. -/
def PathName.Same (left right : PathName) : Prop :=
  left.bytes.take maxpathlen = right.bytes.take maxpathlen

instance (left right : PathName) : Decidable (left.Same right) :=
  inferInstanceAs (Decidable (_ = _))

def PathName.Fits (name : PathName) : Prop := name.bytes.length < maxpathlen

instance (name : PathName) : Decidable name.Fits := inferInstanceAs (Decidable (_ < _))

structure Files where
  inode : PathName → Option Nat
  content : Nat → List UInt8
  next : Nat
  older : ∀ name i, inode name = some i → i < next

namespace Files

def set (files : Files) (i : Nat) (bytes : List UInt8) : Files :=
  { files with content := Function.update files.content i bytes }

def create (files : Files) (name : PathName) : Files where
  inode := Function.update files.inode name (some files.next)
  content := Function.update files.content files.next []
  next := files.next + 1
  older other i found := by
    rcases Decidable.eq_or_ne other name with rfl | differs
    · rw [Function.update_self] at found
      cases found
      exact Nat.lt_succ_self _
    · rw [Function.update_of_ne differs] at found
      exact Nat.lt_succ_of_lt (files.older other i found)

def unlink (files : Files) (name : PathName) : Files where
  inode := Function.update files.inode name none
  content := files.content
  next := files.next
  older other i found := by
    rcases Decidable.eq_or_ne other name with rfl | differs
    · rw [Function.update_self] at found
      cases found
    · rw [Function.update_of_ne differs] at found
      exact files.older other i found

end Files

structure OpenFile where
  inode : Nat
  offset : Nat
  deriving DecidableEq

/-- A descriptor of the state: `-2` before the file is opened, `-1` where that has failed. -/
inductive Fd
  | unset
  | failed
  | opened (file : OpenFile)
  deriving DecidableEq

def Fd.close : Fd → Fd
  | .opened _ => .unset
  | fd => fd

/-- The fields of `copyfile_state_t` that the calls leave to one another, and the files. -/
structure Session where
  src : Option PathName
  dst : Option PathName
  srcFd : Fd
  dstFd : Fd
  sb : SourceStat
  files : Files

def copyfileStateAlloc (files : Files) : Session where
  src := none
  dst := none
  srcFd := .unset
  dstFd := .unset
  sb := ⟨0, 0, 0⟩
  files := files

/-- The arguments of a call, what the system answers it, and how far its loops are followed. The
calls that open the files may be refused for reasons of which the files tell nothing, each `open`
and `chmod` of the destination by how many have been made before. -/
structure Call where
  src : Option PathName
  dst : Option PathName
  excl : Bool
  system : DataSystem
  blksize : Nat
  srcStats : Option Errno
  srcOpens : Option Errno
  dstOpens : Nat → Option Errno
  dstChmods : Nat → Option Errno
  fuel : Nat

def setFname (given kept : Option PathName) (fd : Fd) : Option PathName × Fd :=
  match given, kept with
  | none, _ => (kept, fd)
  | some name, none => (some name, fd)
  | some name, some old => (some name, if name.Same old then fd else fd.close)

variable (call : Call)

def openSource (s : Session) : Except Errno Unit × Session :=
  match s.srcFd, s.src with
  | .unset, some src =>
      if ¬ src.Fits then (.error enametoolong, s)
      else
        match call.srcStats, s.files.inode src with
        | some error, _ => (.error error, s)
        | none, none => (.error enoent, s)
        | none, some i =>
            let s := { s with sb := ⟨sIfreg, (s.files.content i).length, call.blksize⟩ }
            match call.srcOpens with
            | some error => (.error error, { s with srcFd := .failed })
            | none => (.ok (), { s with srcFd := .opened ⟨i, 0⟩ })
  | _, _ => (.ok (), s)

def Files.opens (files : Files) (dst : PathName) (flags : UInt32) : Except Errno Nat × Files :=
  if ¬ dst.Fits then (.error enametoolong, files)
  else
    match files.inode dst with
    | some i =>
        if flags &&& oCreat ≠ 0 ∧ flags &&& oExcl ≠ 0 then (.error eexist, files)
        else (.ok i, if flags &&& oTrunc ≠ 0 then files.set i [] else files)
    | none =>
        if flags &&& oCreat = 0 then (.error enoent, files)
        else (.ok files.next, files.create dst)

def destinationOpens (dst : PathName) : OpenSystem (Files × Nat) Nat where
  open' state flags :=
    match call.dstOpens state.2 with
    | some error => (.error error, state.1, state.2 + 1)
    | none => ((state.1.opens dst flags).1, (state.1.opens dst flags).2, state.2 + 1)
  chmod state :=
    match call.dstChmods state.2 with
    | some error => (.error error, state)
    | none => (if (state.1.inode dst).isSome then .ok () else .error enoent, state)

def openRequest : OpenRequest where
  excl := call.excl
  pack := false
  data := true
  unpack := false
  isdir := false
  dsrc := 0

def openTarget (s : Session) : Option (Except Errno Unit × Session) :=
  match s.dstFd, s.dst with
  | .unset, some dst =>
      match openDestination (destinationOpens call dst) (openRequest call) call.fuel (s.files, 0) with
      | none => none
      | some ends =>
          match ends.result with
          | .error error => some (.error error, { s with dstFd := .failed, files := ends.state.1 })
          | .ok i => some (.ok (), { s with dstFd := .opened ⟨i, 0⟩, files := ends.state.1 })
  | _, _ => some (.ok (), s)

def copyfileOpen (s : Session) : Option (Except Errno Unit × Session) :=
  match openSource call s with
  | (.error error, s) => some (.error error, s)
  | (.ok _, s) =>
      match openTarget call s with
      | some (.ok _, s) =>
          match s.srcFd, s.dstFd with
          | .opened _, .opened _ => some (.ok (), s)
          | _, _ => some (.error einval, s)
      | ends => ends

/-- A file that is copied onto itself while there is something left to read would meet what has
been written; this is not followed. -/
def copyfileInternal (s : Session) : Option (Int × Session) :=
  match s.srcFd, s.dstFd with
  | .opened source, .opened dst =>
      let unread := (s.files.content source.inode).drop source.offset
      if source.inode = dst.inode ∧ unread ≠ [] then none
      else
        let copying : Copying :=
          ⟨unread, s.files.content dst.inode, dst.offset, 0, 0, 0, 0, 0, 0⟩
        match copyfileData call.system s.sb call.fuel copying with
        | none => none
        | some (ret, after) =>
            let files := s.files.set dst.inode after.dst
            some (ret, { s with
              srcFd := .opened ⟨source.inode, source.offset + (unread.length - after.source.length)⟩
              dstFd := .opened ⟨dst.inode, after.offset⟩
              files := if ret < 0 then
                  match s.dst with
                  | some name => files.unlink name
                  | none => files
                else files })
  | _, _ => some (-1, s)

def copyfile (s : Session) (call : Call) : Option (Int × Session) :=
  if call.src = none ∧ call.dst = none then some (-1, s)
  else
    let (src, srcFd) := setFname call.src s.src s.srcFd
    let (dst, dstFd) := setFname call.dst s.dst s.dstFd
    match copyfileOpen call { s with src, srcFd, dst, dstFd } with
    | none => none
    | some (.error _, s) => some (-1, s)
    | some (.ok _, s) => copyfileInternal call s

def Session.step (s : Session) (call : Call) : Session :=
  match copyfile s call with
  | some (_, after) => after
  | none => s

end LegacySupport.Copyfile
