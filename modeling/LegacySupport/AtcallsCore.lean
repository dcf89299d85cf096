import LegacySupport.CInt

/-!
The `*at` functions of `atcalls.c`, `statxx.c` and `fdopendir.c`, and the macro they are built
on: enter the directory of a descriptor, make the call there, and go back.
-/

namespace LegacySupport.Atcalls

open CInt

abbrev Path := List Char
abbrev Errno := Nat

def einval : Errno := 22
def ebadf : Errno := 9
def enotdir : Errno := 20

def atFdcwd : Int := -2
def atEaccess : UInt32 := 0x10
def atSymlinkNofollow : UInt32 := 0x20
def atRemovedir : UInt32 := 0x80
def oCreat : UInt32 := 0x200
def pathMax : Nat := 1024

/-! ## Processes -/

structure Creds where
  ruid : Nat
  euid : Nat
  rgid : Nat
  egid : Nat
  deriving DecidableEq, Repr

inductive Target (Dir : Type)
  | directory (dir : Dir)
  | file (id : Nat)
  deriving DecidableEq, Repr

structure Descriptor (Dir : Type) where
  target : Target Dir
  offset : Nat
  closeOnExec : Bool

/-- The working directory the calling thread sees: from 10.5 on a thread may have its own one,
on 10.4 there is only that of the process. -/
inductive Cwd (Dir : Type)
  | perThread (process : Dir) (thread : Option Dir)
  | processWide (process : Dir)
  deriving DecidableEq, Repr

def Cwd.here {Dir : Type} : Cwd Dir → Dir
  | .perThread process thread => thread.getD process
  | .processWide process => process

inductive Syscall
  | access (path : Path) (mode : Int)
  | chmod (path : Path) (mode : Nat)
  | lchmod (path : Path) (mode : Nat)
  | chown (path : Path) (owner group : Nat)
  | lchown (path : Path) (owner group : Nat)
  | getattrlist (path : Path) (a buf size flags : Nat)
  | setattrlist (path : Path) (a buf size flags : Nat)
  | link (oldpath newpath : Path)
  | rename (oldpath newpath : Path)
  | symlink (oldpath newpath : Path)
  | mkdir (path : Path) (mode : Nat)
  | rmdir (path : Path)
  | unlink (path : Path)
  | open (path : Path) (flags : UInt32) (mode : Nat)
  | readlink (path : Path) (buf bufsiz : Nat)
  | stat (path : Path) (buf : Nat)
  | lstat (path : Path) (buf : Nat)
  | statInode64 (path : Path) (buf : Nat)
  | lstatInode64 (path : Path) (buf : Nat)
  | stat64 (path : Path) (buf : Nat)
  | lstat64 (path : Path) (buf : Nat)
  | opendir (path : Path)
  deriving DecidableEq

def Syscall.opens : Syscall → Bool
  | .open _ _ _ => true
  | .opendir _ => true
  | _ => false

/-- What happens on the way: a wrapped call with the credentials in force, the `fchdir` to the
descriptor given when it fails, and a failure outside the macro. -/
inductive Event
  | called (syscall : Syscall) (creds : Creds) (error : Option Errno)
  | notEntered (fd : Int) (error : Errno)
  | rejected (error : Errno)

/-- The state of a process that its calling thread sees, with the history of what it did. No
function reads the history. -/
structure Proc (FS Dir : Type) where
  creds : Creds
  cwd : Cwd Dir
  fds : Nat → Option (Descriptor Dir)
  errno : Errno
  fs : FS
  log : List Event

/-- The system: what each call does, of which only this is known. A process may swap its real
and effective ids, and a new descriptor is one that was not in use. -/
structure Os (FS Dir : Type) where
  setreuid : Creds → Nat → Nat → Creds
  setregid : Creds → Nat → Nat → Creds
  openDot : Proc FS Dir → Except Errno Nat
  chdirError : FS → Creds → Dir → Option Errno
  noOwnCwd : Errno
  getpath : FS → Target Dir → Except Errno Path
  fstatError : Proc FS Dir → Int → Option Errno
  exec : Syscall → Proc FS Dir → Except Errno Nat
  opened : Syscall → Proc FS Dir → Descriptor Dir
  fsAfter : Syscall → Proc FS Dir → FS
  setreuid_swap : ∀ creds, setreuid creds creds.euid creds.ruid =
    { creds with ruid := creds.euid, euid := creds.ruid }
  setregid_swap : ∀ creds, setregid creds creds.egid creds.rgid =
    { creds with rgid := creds.egid, egid := creds.rgid }
  openDot_fresh : ∀ proc fd, openDot proc = .ok fd → proc.fds fd = none
  exec_fresh : ∀ syscall proc fd, syscall.opens = true → exec syscall proc = .ok fd →
    proc.fds fd = none

variable {FS Dir : Type}

def Proc.descriptor (proc : Proc FS Dir) (fd : Int) : Option (Descriptor Dir) :=
  if 0 ≤ fd then proc.fds fd.toNat else none

def Proc.fail (proc : Proc FS Dir) (error : Errno) : Int × Proc FS Dir :=
  (-1, { proc with errno := error })

def Proc.reject (proc : Proc FS Dir) (error : Errno) : Int × Proc FS Dir :=
  (-1, { proc with errno := error, log := proc.log ++ [.rejected error] })

def openDot (os : Os FS Dir) (proc : Proc FS Dir) : Int × Proc FS Dir :=
  match os.openDot proc with
  | .error error => proc.fail error
  | .ok fd =>
      (fd, { proc with
        fds := Function.update proc.fds fd (some ⟨.directory proc.cwd.here, 0, false⟩) })

def close (proc : Proc FS Dir) (fd : Int) : Int × Proc FS Dir :=
  if (proc.descriptor fd).isNone then proc.fail ebadf
  else (0, { proc with fds := Function.update proc.fds fd.toNat none })

def chdirTarget (os : Os FS Dir) (proc : Proc FS Dir) (fd : Int) : Except Errno Dir :=
  match proc.descriptor fd with
  | none => .error ebadf
  | some descriptor =>
      match descriptor.target with
      | .file _ => .error enotdir
      | .directory dir =>
          match os.chdirError proc.fs proc.creds dir with
          | some error => .error error
          | none => .ok dir

/-- `pthread_fchdir_np`: minus one drops the thread's own directory. -/
def pthreadFchdirNp (os : Os FS Dir) (proc : Proc FS Dir) (process : Dir) (thread : Option Dir)
    (fd : Int) : Int × Proc FS Dir :=
  if fd = -1 then
    match thread with
    | none => proc.fail os.noOwnCwd
    | some _ => (0, { proc with cwd := .perThread process none })
  else
    match chdirTarget os proc fd with
    | .error error => proc.fail error
    | .ok dir => (0, { proc with cwd := .perThread process (some dir) })

def fchdir (os : Os FS Dir) (proc : Proc FS Dir) (fd : Int) : Int × Proc FS Dir :=
  match chdirTarget os proc fd with
  | .error error => proc.fail error
  | .ok dir => (0, { proc with cwd := .processWide dir })

def mplsBestFchdir (os : Os FS Dir) (proc : Proc FS Dir) (dirfd : Int) : Int × Proc FS Dir :=
  match proc.cwd with
  | .perThread process thread => pthreadFchdirNp os proc process thread dirfd
  | .processWide _ => if dirfd = -1 then (0, proc) else fchdir os proc dirfd

def call (os : Os FS Dir) (syscall : Syscall) (proc : Proc FS Dir) : Int × Proc FS Dir :=
  match os.exec syscall proc with
  | .error error =>
      (-1, { proc with
        errno := error
        fs := os.fsAfter syscall proc
        log := proc.log ++ [.called syscall proc.creds (some error)] })
  | .ok value =>
      (value, { proc with
        fds := if syscall.opens then
            Function.update proc.fds value (some (os.opened syscall proc))
          else proc.fds
        fs := os.fsAfter syscall proc
        log := proc.log ++ [.called syscall proc.creds none] })

/-! ## The macro -/

def protectErrno (proc : Proc FS Dir) (what : Proc FS Dir → Int × Proc FS Dir) : Proc FS Dir :=
  { (what proc).2 with errno := proc.errno }

inductive Flow
  | exits (value : Int)
  | yields (value : Int)

def Direct (fd : Int) (p : Path) : Prop := fd = atFdcwd ∨ p.head? = some '/'

instance (fd : Int) (p : Path) : Decidable (Direct fd p) :=
  inferInstanceAs (Decidable (_ ∨ _))

/-- The descriptor of the old directory, which also tells whether the thread had its own one. -/
def saveCwd (os : Os FS Dir) (proc : Proc FS Dir) : Int × Proc FS Dir :=
  let opened := openDot os proc
  let probed := mplsBestFchdir os opened.2 (-1)
  if probed.1 < 0 ∧ opened.1 ≠ -1 then (-1, (close probed.2 opened.1).2)
  else (opened.1, probed.2)

def restoreCwd (os : Os FS Dir) (oldCwd : Int) (proc : Proc FS Dir) : Proc FS Dir :=
  let proc := protectErrno proc fun proc => mplsBestFchdir os proc oldCwd
  if oldCwd ≠ -1 then protectErrno proc fun proc => close proc oldCwd else proc

def atcall (os : Os FS Dir) (proc : Proc FS Dir) (fd : Int) (p : Path) (onerr : Int)
    (what : Proc FS Dir → Int × Proc FS Dir) : Flow × Proc FS Dir :=
  if ¬ Direct fd p then
    let saved := saveCwd os proc
    let entered := mplsBestFchdir os saved.2 fd
    if entered.1 < 0 then
      let noted := { entered.2 with log := entered.2.log ++ [.notEntered fd entered.2.errno] }
      (.exits onerr, restoreCwd os saved.1 noted)
    else
      let result := what entered.2
      (.yields result.1, restoreCwd os saved.1 result.2)
  else
    let result := what proc
    (.yields result.1, result.2)

def Flow.value : Flow → Int
  | .exits value => value
  | .yields value => value

def returnAtcall (os : Os FS Dir) (proc : Proc FS Dir) (fd : Int) (p : Path) (what : Syscall) :
    Int × Proc FS Dir :=
  let result := atcall os proc fd p (-1) (call os what)
  (result.1.value, result.2)

/-! ## The functions -/

def strlcat (buf suffix : Path) : Path := (buf ++ suffix).take (max buf.length (pathMax - 1))

def fcntlGetpath (os : Os FS Dir) (proc : Proc FS Dir) (fd : Int) : Except Errno Path :=
  match proc.descriptor fd with
  | none => .error ebadf
  | some descriptor => os.getpath proc.fs descriptor.target

def fullpathat (os : Os FS Dir) (proc : Proc FS Dir) (dirfd : Int) (relative : Path) :
    Except Errno Path × Proc FS Dir :=
  if dirfd = atFdcwd then
    let cwd := openDot os proc
    if cwd.1 = -1 then (.error cwd.2.errno, cwd.2)
    else
      match fcntlGetpath os cwd.2 cwd.1 with
      | .error error => (.error error, (close { cwd.2 with errno := error } cwd.1).2)
      | .ok buf => (.ok (strlcat (strlcat buf ['/']) relative), (close cwd.2 cwd.1).2)
  else
    match fcntlGetpath os proc dirfd with
    | .error error => (.error error, { proc with errno := error })
    | .ok buf => (.ok (strlcat (strlcat buf ['/']) relative), proc)

def swapUid (os : Os FS Dir) (proc : Proc FS Dir) (ruid euid : Nat) : Proc FS Dir :=
  { proc with creds := os.setreuid proc.creds ruid euid }

def swapGid (os : Os FS Dir) (proc : Proc FS Dir) (rgid egid : Nat) : Proc FS Dir :=
  { proc with creds := os.setregid proc.creds rgid egid }

def faccessatSwap (os : Os FS Dir) (proc : Proc FS Dir) (flags : UInt32) : Proc FS Dir :=
  let creds := proc.creds
  let proc := if creds.ruid ≠ creds.euid ∧ flags &&& atEaccess ≠ 0 then
      swapUid os proc creds.euid creds.ruid else proc
  if creds.rgid ≠ creds.egid ∧ flags &&& atEaccess ≠ 0 then
    swapGid os proc creds.egid creds.rgid else proc

def faccessat (os : Os FS Dir) (proc : Proc FS Dir) (dirfd : Int) (pathname : Path) (mode : Int)
    (flags : UInt32) : Int × Proc FS Dir :=
  if flags &&& ~~~atEaccess ≠ 0 then proc.reject einval
  else
    let creds := proc.creds
    let swapped := faccessatSwap os proc flags
    match atcall os swapped dirfd pathname (-1) (call os (.access pathname mode)) with
    | (.exits value, proc) => (value, proc)
    | (.yields value, proc) =>
        let proc := if creds.ruid ≠ creds.euid ∧ flags &&& atEaccess ≠ 0 then
            swapUid os proc creds.ruid creds.euid else proc
        let proc := if creds.rgid ≠ creds.egid ∧ flags &&& atEaccess ≠ 0 then
            swapGid os proc creds.rgid creds.egid else proc
        (value, proc)

def flaggedAtcall (os : Os FS Dir) (proc : Proc FS Dir) (dirfd : Int) (pathname : Path)
    (flags flag : UInt32) (flagged plain : Syscall) : Int × Proc FS Dir :=
  if flags &&& ~~~flag ≠ 0 then proc.reject einval
  else if flags &&& flag ≠ 0 then returnAtcall os proc dirfd pathname flagged
  else returnAtcall os proc dirfd pathname plain

def fchmodat (os : Os FS Dir) (proc : Proc FS Dir) (dirfd : Int) (pathname : Path) (mode : Nat)
    (flags : UInt32) : Int × Proc FS Dir :=
  flaggedAtcall os proc dirfd pathname flags atSymlinkNofollow (.lchmod pathname mode)
    (.chmod pathname mode)

def fchownat (os : Os FS Dir) (proc : Proc FS Dir) (dirfd : Int) (pathname : Path)
    (owner group : Nat) (flags : UInt32) : Int × Proc FS Dir :=
  flaggedAtcall os proc dirfd pathname flags atSymlinkNofollow (.lchown pathname owner group)
    (.chown pathname owner group)

/-- The assertion of the 64-bit build ends the process when the flags do not fit an `int`. -/
def getattrlistat (abi : Abi) (os : Os FS Dir) (proc : Proc FS Dir) (dirfd : Int)
    (pathname : Path) (a buf size flags : Nat) : Option (Int × Proc FS Dir) :=
  if abi = .lp64 ∧ toUnsigned 32 flags ≠ flags then none
  else some (returnAtcall os proc dirfd pathname (.getattrlist pathname a buf size flags))

def twoPathAtcall (os : Os FS Dir) (proc : Proc FS Dir) (olddirfd : Int) (oldpath : Path)
    (newdirfd : Int) (newpath : Path) (what : Path → Path → Syscall) : Int × Proc FS Dir :=
  if oldpath.head? = some '/' then returnAtcall os proc newdirfd newpath (what oldpath newpath)
  else if newpath.head? = some '/' ∨ olddirfd = newdirfd then
    returnAtcall os proc olddirfd oldpath (what oldpath newpath)
  else
    match fullpathat os proc olddirfd oldpath with
    | (.error error, proc) => proc.reject error
    | (.ok oldFull, proc) =>
        match fullpathat os proc newdirfd newpath with
        | (.error error, proc) => proc.reject error
        | (.ok newFull, proc) => call os (what oldFull newFull) proc

def linkat (os : Os FS Dir) (proc : Proc FS Dir) (olddirfd : Int) (oldpath : Path)
    (newdirfd : Int) (newpath : Path) (flags : UInt32) : Int × Proc FS Dir :=
  if flags ≠ 0 then proc.reject einval
  else twoPathAtcall os proc olddirfd oldpath newdirfd newpath .link

def mkdirat (os : Os FS Dir) (proc : Proc FS Dir) (dirfd : Int) (pathname : Path) (mode : Nat) :
    Int × Proc FS Dir :=
  returnAtcall os proc dirfd pathname (.mkdir pathname mode)

def openat (os : Os FS Dir) (proc : Proc FS Dir) (dirfd : Int) (pathname : Path) (flags : UInt32)
    (mode : Nat) : Int × Proc FS Dir :=
  let mode := if flags &&& oCreat ≠ 0 then mode else 0
  returnAtcall os proc dirfd pathname (.open pathname flags mode)

def openatNocancel (os : Os FS Dir) (proc : Proc FS Dir) (dirfd : Int) (pathname : Path)
    (flags : UInt32) (mode : Nat) : Int × Proc FS Dir :=
  let mode := if flags &&& oCreat ≠ 0 then mode else 0
  returnAtcall os proc dirfd pathname (.open pathname flags mode)

def readlinkat (os : Os FS Dir) (proc : Proc FS Dir) (dirfd : Int) (pathname : Path)
    (buf bufsiz : Nat) : Int × Proc FS Dir :=
  returnAtcall os proc dirfd pathname (.readlink pathname buf bufsiz)

def renameat (os : Os FS Dir) (proc : Proc FS Dir) (olddirfd : Int) (oldpath : Path)
    (newdirfd : Int) (newpath : Path) : Int × Proc FS Dir :=
  twoPathAtcall os proc olddirfd oldpath newdirfd newpath .rename

def symlinkat (os : Os FS Dir) (proc : Proc FS Dir) (oldpath : Path) (newdirfd : Int)
    (newpath : Path) : Int × Proc FS Dir :=
  returnAtcall os proc newdirfd newpath (.symlink oldpath newpath)

def unlinkat (os : Os FS Dir) (proc : Proc FS Dir) (dirfd : Int) (pathname : Path)
    (flags : UInt32) : Int × Proc FS Dir :=
  flaggedAtcall os proc dirfd pathname flags atRemovedir (.rmdir pathname) (.unlink pathname)

def setattrlistat (os : Os FS Dir) (proc : Proc FS Dir) (dirfd : Int) (pathname : Path)
    (a buf size flags : Nat) : Int × Proc FS Dir :=
  returnAtcall os proc dirfd pathname (.setattrlist pathname a buf size flags)

def fstatat (os : Os FS Dir) (proc : Proc FS Dir) (fd : Int) (path : Path) (buf : Nat)
    (flag : UInt32) : Int × Proc FS Dir :=
  flaggedAtcall os proc fd path flag atSymlinkNofollow (.lstat path buf) (.stat path buf)

def fstatatInode64 (os : Os FS Dir) (proc : Proc FS Dir) (fd : Int) (path : Path) (buf : Nat)
    (flag : UInt32) : Int × Proc FS Dir :=
  flaggedAtcall os proc fd path flag atSymlinkNofollow (.lstatInode64 path buf)
    (.statInode64 path buf)

def fstatat64 (os : Os FS Dir) (proc : Proc FS Dir) (fd : Int) (path : Path) (buf : Nat)
    (flag : UInt32) : Int × Proc FS Dir :=
  flaggedAtcall os proc fd path flag atSymlinkNofollow (.lstat64 path buf) (.stat64 path buf)

def fstatDirectory (os : Os FS Dir) (proc : Proc FS Dir) (fd : Int) : Except Errno Bool :=
  match proc.descriptor fd with
  | none => .error ebadf
  | some descriptor =>
      match os.fstatError proc fd, descriptor.target with
      | some error, _ => .error error
      | none, .directory _ => .ok true
      | none, .file _ => .ok false

def Descriptor.adopt (descriptor : Descriptor Dir) : Descriptor Dir :=
  { descriptor with offset := 0, closeOnExec := true }

/-- A `DIR` is named by its descriptor, and a null pointer by minus one. -/
def fdopendir (os : Os FS Dir) (proc : Proc FS Dir) (fd : Int) : Int × Proc FS Dir :=
  match fstatDirectory os proc fd with
  | .error error => proc.reject error
  | .ok false => proc.reject enotdir
  | .ok true =>
      match atcall os proc fd ['.'] (-1) (call os (.opendir ['.'])) with
      | (.exits value, proc) => (value, proc)
      | (.yields dir, proc) =>
          if dir = -1 then (-1, proc)
          else
            let proc := (close proc dir).2
            (fd, { proc with
              fds := Function.update proc.fds fd.toNat
                ((proc.fds fd.toNat).map Descriptor.adopt) })

end LegacySupport.Atcalls
