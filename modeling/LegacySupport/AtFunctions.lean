import LegacySupport.Atcalls

/-!
All the functions built on the macro: what each of them leaves of the working directory and of
the open descriptors.
-/

namespace LegacySupport.Atcalls

open CInt

variable {FS Dir : Type}

inductive AtFunction
  | faccessat (dirfd : Int) (pathname : Path) (mode : Int) (flags : UInt32)
  | fchmodat (dirfd : Int) (pathname : Path) (mode : Nat) (flags : UInt32)
  | fchownat (dirfd : Int) (pathname : Path) (owner group : Nat) (flags : UInt32)
  | getattrlistat (dirfd : Int) (pathname : Path) (a buf size flags : Nat)
  | linkat (olddirfd : Int) (oldpath : Path) (newdirfd : Int) (newpath : Path) (flags : UInt32)
  | mkdirat (dirfd : Int) (pathname : Path) (mode : Nat)
  | openat (dirfd : Int) (pathname : Path) (flags : UInt32) (mode : Nat)
  | openatNocancel (dirfd : Int) (pathname : Path) (flags : UInt32) (mode : Nat)
  | readlinkat (dirfd : Int) (pathname : Path) (buf bufsiz : Nat)
  | renameat (olddirfd : Int) (oldpath : Path) (newdirfd : Int) (newpath : Path)
  | symlinkat (oldpath : Path) (newdirfd : Int) (newpath : Path)
  | unlinkat (dirfd : Int) (pathname : Path) (flags : UInt32)
  | setattrlistat (dirfd : Int) (pathname : Path) (a buf size flags : Nat)
  | fstatat (fd : Int) (path : Path) (buf : Nat) (flag : UInt32)
  | fstatatInode64 (fd : Int) (path : Path) (buf : Nat) (flag : UInt32)
  | fstatat64 (fd : Int) (path : Path) (buf : Nat) (flag : UInt32)
  | fdopendir (fd : Int)

def AtFunction.run (abi : Abi) (os : Os FS Dir) (proc : Proc FS Dir) :
    AtFunction → Option (Int × Proc FS Dir)
  | .faccessat dirfd pathname mode flags =>
      some (Atcalls.faccessat os proc dirfd pathname mode flags)
  | .fchmodat dirfd pathname mode flags => some (Atcalls.fchmodat os proc dirfd pathname mode flags)
  | .fchownat dirfd pathname owner group flags =>
      some (Atcalls.fchownat os proc dirfd pathname owner group flags)
  | .getattrlistat dirfd pathname a buf size flags =>
      Atcalls.getattrlistat abi os proc dirfd pathname a buf size flags
  | .linkat olddirfd oldpath newdirfd newpath flags =>
      some (Atcalls.linkat os proc olddirfd oldpath newdirfd newpath flags)
  | .mkdirat dirfd pathname mode => some (Atcalls.mkdirat os proc dirfd pathname mode)
  | .openat dirfd pathname flags mode => some (Atcalls.openat os proc dirfd pathname flags mode)
  | .openatNocancel dirfd pathname flags mode =>
      some (Atcalls.openatNocancel os proc dirfd pathname flags mode)
  | .readlinkat dirfd pathname buf bufsiz =>
      some (Atcalls.readlinkat os proc dirfd pathname buf bufsiz)
  | .renameat olddirfd oldpath newdirfd newpath =>
      some (Atcalls.renameat os proc olddirfd oldpath newdirfd newpath)
  | .symlinkat oldpath newdirfd newpath => some (Atcalls.symlinkat os proc oldpath newdirfd newpath)
  | .unlinkat dirfd pathname flags => some (Atcalls.unlinkat os proc dirfd pathname flags)
  | .setattrlistat dirfd pathname a buf size flags =>
      some (Atcalls.setattrlistat os proc dirfd pathname a buf size flags)
  | .fstatat fd path buf flag => some (Atcalls.fstatat os proc fd path buf flag)
  | .fstatatInode64 fd path buf flag => some (Atcalls.fstatatInode64 os proc fd path buf flag)
  | .fstatat64 fd path buf flag => some (Atcalls.fstatat64 os proc fd path buf flag)
  | .fdopendir fd => some (Atcalls.fdopendir os proc fd)

structure Entry (FS Dir : Type) where
  start : Proc FS Dir
  fd : Int
  path : Path

def flaggedEntry (proc : Proc FS Dir) (fd : Int) (path : Path) (flags flag : UInt32) :
    Option (Entry FS Dir) :=
  if flags &&& ~~~flag ≠ 0 then none else some ⟨proc, fd, path⟩

def twoPathEntry (proc : Proc FS Dir) (olddirfd : Int) (oldpath : Path) (newdirfd : Int)
    (newpath : Path) : Option (Entry FS Dir) :=
  if oldpath.head? = some '/' then some ⟨proc, newdirfd, newpath⟩
  else if newpath.head? = some '/' ∨ olddirfd = newdirfd then some ⟨proc, olddirfd, oldpath⟩
  else none

def linkatEntry (proc : Proc FS Dir) (olddirfd : Int) (oldpath : Path) (newdirfd : Int)
    (newpath : Path) (flags : UInt32) : Option (Entry FS Dir) :=
  if flags ≠ 0 then none else twoPathEntry proc olddirfd oldpath newdirfd newpath

def directoryEntry (os : Os FS Dir) (proc : Proc FS Dir) (fd : Int) : Option (Entry FS Dir) :=
  match fstatDirectory os proc fd with
  | .ok true => some ⟨proc, fd, ['.']⟩
  | _ => none

def AtFunction.entry (os : Os FS Dir) (proc : Proc FS Dir) : AtFunction → Option (Entry FS Dir)
  | .faccessat dirfd pathname _ flags =>
      flaggedEntry (faccessatSwap os proc flags) dirfd pathname flags atEaccess
  | .fchmodat dirfd pathname _ flags => flaggedEntry proc dirfd pathname flags atSymlinkNofollow
  | .fchownat dirfd pathname _ _ flags => flaggedEntry proc dirfd pathname flags atSymlinkNofollow
  | .getattrlistat dirfd pathname _ _ _ _ => some ⟨proc, dirfd, pathname⟩
  | .linkat olddirfd oldpath newdirfd newpath flags =>
      linkatEntry proc olddirfd oldpath newdirfd newpath flags
  | .mkdirat dirfd pathname _ => some ⟨proc, dirfd, pathname⟩
  | .openat dirfd pathname _ _ => some ⟨proc, dirfd, pathname⟩
  | .openatNocancel dirfd pathname _ _ => some ⟨proc, dirfd, pathname⟩
  | .readlinkat dirfd pathname _ _ => some ⟨proc, dirfd, pathname⟩
  | .renameat olddirfd oldpath newdirfd newpath =>
      twoPathEntry proc olddirfd oldpath newdirfd newpath
  | .symlinkat _ newdirfd newpath => some ⟨proc, newdirfd, newpath⟩
  | .unlinkat dirfd pathname flags => flaggedEntry proc dirfd pathname flags atRemovedir
  | .setattrlistat dirfd pathname _ _ _ _ => some ⟨proc, dirfd, pathname⟩
  | .fstatat fd path _ flag => flaggedEntry proc fd path flag atSymlinkNofollow
  | .fstatatInode64 fd path _ flag => flaggedEntry proc fd path flag atSymlinkNofollow
  | .fstatat64 fd path _ flag => flaggedEntry proc fd path flag atSymlinkNofollow
  | .fdopendir fd => directoryEntry os proc fd

def AtFunction.opens : AtFunction → Bool
  | .openat _ _ _ _ => true
  | .openatNocancel _ _ _ _ => true
  | _ => false

def EntryGuard (os : Os FS Dir) (entry : Entry FS Dir) : Prop :=
  Direct entry.fd entry.path ∨ Recoverable os entry.start entry.fd

def Guarded (os : Os FS Dir) (entry : Option (Entry FS Dir)) : Prop :=
  ∀ place, entry = some place → EntryGuard os place

/-- A call leaves no trace of the macro: the working directory is the one at entry, the open
descriptors are those at entry and the one returned, and the error of a failure is that of the
call or of entering the directory, unless the function fails outside the macro. -/
structure Traceless (opens : Bool) (entry : Option (Entry FS Dir)) (before after : Proc FS Dir)
    (value : Int) : Prop where
  cwd : after.cwd = before.cwd
  descriptors : DescriptorsKept opens before after value
  errno : ErrorKept before after value ∨
    entry = none ∧ value = -1 ∧ after.log = before.log ++ [.rejected after.errno]

theorem guarded_none (os : Os FS Dir) : Guarded os none := nofun

theorem guarded_some (os : Os FS Dir) (place : Entry FS Dir) :
    Guarded os (some place) ↔ EntryGuard os place :=
  ⟨fun guarded => guarded place rfl, fun guard _ same => by cases same; exact guard⟩

/-! ## The shapes of the functions -/

theorem reject_traceless (opens : Bool) {before proc : Proc FS Dir} (error : Errno)
    (cwd : proc.cwd = before.cwd) (fds : proc.fds = before.fds) (log : proc.log = before.log) :
    Traceless opens none before (proc.reject error).2 (proc.reject error).1 where
  cwd := cwd
  descriptors := descriptorsKept_failure opens fds
  errno := Or.inr ⟨rfl, rfl, by simp [Proc.reject, log]⟩

theorem call_traceless (os : Os FS Dir) (syscall : Syscall) (entry : Option (Entry FS Dir))
    (proc : Proc FS Dir) :
    Traceless syscall.opens entry proc (call os syscall proc).2 (call os syscall proc).1 where
  cwd := call_cwd os syscall proc
  descriptors := call_descriptorsKept os syscall proc
  errno := by
    left
    intro failed
    obtain ⟨error, errno, logged⟩ := call_errno failed
    exact ⟨error, errno, Or.inl ⟨syscall, proc.creds, logged⟩⟩

theorem atcall_traceless_iff {os : Os FS Dir} {proc : Proc FS Dir}
    (reachable : Reachable os proc) (fd : Int) (p : Path) (syscall : Syscall) :
    Traceless syscall.opens (some ⟨proc, fd, p⟩) proc
        (atcall os proc fd p (-1) (call os syscall)).2
        (atcall os proc fd p (-1) (call os syscall)).1.value ↔
      EntryGuard os ⟨proc, fd, p⟩ := by
  by_cases direct : Direct fd p
  · refine iff_of_true ?_ (Or.inl direct)
    have result : atcall os proc fd p (-1) (call os syscall) =
        (.yields (call os syscall proc).1, (call os syscall proc).2) := by
      simp [atcall, direct]
    rw [result]
    exact call_traceless os syscall _ proc
  · obtain ⟨restores, kept⟩ := atcall_restores_iff direct reachable syscall
    constructor
    · intro traceless
      exact Or.inr (restores.mp traceless.cwd)
    · rintro (entered | recoverable)
      · exact absurd entered direct
      · exact ⟨restores.mpr recoverable, kept,
          Or.inl (atcall_errorKept os proc fd p syscall)⟩

theorem atcall_descriptorsKept {os : Os FS Dir} {proc : Proc FS Dir}
    (reachable : Reachable os proc) (fd : Int) (p : Path) (syscall : Syscall) :
    DescriptorsKept syscall.opens proc (atcall os proc fd p (-1) (call os syscall)).2
      (atcall os proc fd p (-1) (call os syscall)).1.value := by
  by_cases direct : Direct fd p
  · exact ((atcall_traceless_iff reachable fd p syscall).mpr (Or.inl direct)).descriptors
  · exact (atcall_restores_iff direct reachable syscall).2

theorem returnAtcall_traceless_iff {os : Os FS Dir} {proc : Proc FS Dir}
    (reachable : Reachable os proc) (fd : Int) (p : Path) (syscall : Syscall) :
    Traceless syscall.opens (some ⟨proc, fd, p⟩) proc (returnAtcall os proc fd p syscall).2
        (returnAtcall os proc fd p syscall).1 ↔
      Guarded os (some ⟨proc, fd, p⟩) := by
  rw [guarded_some]
  exact atcall_traceless_iff reachable fd p syscall

theorem flaggedAtcall_traceless_iff {os : Os FS Dir} {proc : Proc FS Dir}
    (reachable : Reachable os proc) (fd : Int) (p : Path) (flags flag : UInt32)
    {flagged plain : Syscall} (first : flagged.opens = false) (second : plain.opens = false) :
    Traceless false (flaggedEntry proc fd p flags flag) proc
        (flaggedAtcall os proc fd p flags flag flagged plain).2
        (flaggedAtcall os proc fd p flags flag flagged plain).1 ↔
      Guarded os (flaggedEntry proc fd p flags flag) := by
  unfold flaggedAtcall flaggedEntry
  split
  · exact iff_of_true (reject_traceless false einval rfl rfl rfl) (guarded_none os)
  · split
    · rw [← first]
      exact returnAtcall_traceless_iff reachable fd p flagged
    · rw [← second]
      exact returnAtcall_traceless_iff reachable fd p plain

def SameSession (before after : Proc FS Dir) : Prop :=
  after.cwd = before.cwd ∧ after.fds = before.fds ∧ after.log = before.log

theorem fullpathat_sameSession (os : Os FS Dir) (proc : Proc FS Dir) (dirfd : Int)
    (relative : Path) : SameSession proc (fullpathat os proc dirfd relative).2 := by
  unfold fullpathat
  split
  next here =>
    cases opened : os.openDot proc with
    | error error =>
        simp [openDot_error opened, Proc.fail, SameSession]
    | ok fd =>
        have fresh := os.openDot_fresh proc fd opened
        have given : (fd : Int) ≠ -1 := by omega
        simp only [openDot_ok opened, if_neg given]
        split <;> simp [close, Proc.descriptor, update_fresh fresh, SameSession]
  next =>
    split <;> exact ⟨rfl, rfl, rfl⟩

theorem SameSession.traceless_iff {opens : Bool} {entry : Option (Entry FS Dir)}
    {first before after : Proc FS Dir} {value : Int} (same : SameSession first before) :
    Traceless opens entry before after value ↔ Traceless opens entry first after value := by
  obtain ⟨cwd, fds, log⟩ := same
  constructor
  · rintro ⟨restored, ⟨kept, fresh⟩, errno⟩
    rw [cwd] at restored
    rw [fds] at kept fresh
    rw [ErrorKept, log] at errno
    exact ⟨restored, ⟨kept, fresh⟩, errno⟩
  · rintro ⟨restored, ⟨kept, fresh⟩, errno⟩
    rw [← cwd] at restored
    rw [← fds] at kept fresh
    rw [ErrorKept, ← log] at errno
    exact ⟨restored, ⟨kept, fresh⟩, errno⟩

theorem twoPathAtcall_traceless_iff {os : Os FS Dir} {proc : Proc FS Dir}
    (reachable : Reachable os proc) (olddirfd : Int) (oldpath : Path) (newdirfd : Int)
    (newpath : Path) {what : Path → Path → Syscall}
    (keeps : ∀ old new, (what old new).opens = false) :
    Traceless false (twoPathEntry proc olddirfd oldpath newdirfd newpath) proc
        (twoPathAtcall os proc olddirfd oldpath newdirfd newpath what).2
        (twoPathAtcall os proc olddirfd oldpath newdirfd newpath what).1 ↔
      Guarded os (twoPathEntry proc olddirfd oldpath newdirfd newpath) := by
  unfold twoPathAtcall twoPathEntry
  split
  · rw [← keeps oldpath newpath]
    exact returnAtcall_traceless_iff reachable newdirfd newpath _
  split
  · rw [← keeps oldpath newpath]
    exact returnAtcall_traceless_iff reachable olddirfd oldpath _
  · refine iff_of_true ?_ (guarded_none os)
    have oldSame := fullpathat_sameSession os proc olddirfd oldpath
    split
    next error after found =>
      rw [found] at oldSame
      exact reject_traceless false error oldSame.1 oldSame.2.1 oldSame.2.2
    next oldFull middle found =>
      rw [found] at oldSame
      have newSame := fullpathat_sameSession os middle newdirfd newpath
      split
      next error after again =>
        rw [again] at newSame
        exact oldSame.traceless_iff.mp
          (reject_traceless false error newSame.1 newSame.2.1 newSame.2.2)
      next newFull after again =>
        rw [again] at newSame
        have called := call_traceless os (what oldFull newFull) none after
        rw [keeps] at called
        exact oldSame.traceless_iff.mp (newSame.traceless_iff.mp called)

theorem linkat_traceless_iff {os : Os FS Dir} {proc : Proc FS Dir}
    (reachable : Reachable os proc) (olddirfd : Int) (oldpath : Path) (newdirfd : Int)
    (newpath : Path) (flags : UInt32) :
    Traceless false (linkatEntry proc olddirfd oldpath newdirfd newpath flags) proc
        (linkat os proc olddirfd oldpath newdirfd newpath flags).2
        (linkat os proc olddirfd oldpath newdirfd newpath flags).1 ↔
      Guarded os (linkatEntry proc olddirfd oldpath newdirfd newpath flags) := by
  unfold linkat linkatEntry
  split
  · exact iff_of_true (reject_traceless false einval rfl rfl rfl) (guarded_none os)
  · exact twoPathAtcall_traceless_iff reachable olddirfd oldpath newdirfd newpath
      fun _ _ => rfl

/-! ## The functions with a body of their own -/

theorem faccessatSwap_sameSession (os : Os FS Dir) (proc : Proc FS Dir) (flags : UInt32) :
    SameSession proc (faccessatSwap os proc flags) := by
  unfold faccessatSwap swapUid swapGid
  dsimp only
  split <;> split <;> exact ⟨rfl, rfl, rfl⟩

theorem traceless_creds {opens : Bool} {entry : Option (Entry FS Dir)}
    {before after : Proc FS Dir} {value : Int} (creds : Creds) :
    Traceless opens entry before { after with creds := creds } value ↔
      Traceless opens entry before after value :=
  ⟨fun ⟨cwd, ⟨kept, fresh⟩, errno⟩ => ⟨cwd, ⟨kept, fresh⟩, errno⟩,
    fun ⟨cwd, ⟨kept, fresh⟩, errno⟩ => ⟨cwd, ⟨kept, fresh⟩, errno⟩⟩

theorem faccessat_atcall (os : Os FS Dir) (proc : Proc FS Dir) (dirfd : Int) (pathname : Path)
    (mode : Int) {flags : UInt32} (allowed : flags &&& ~~~atEaccess = 0) :
    ∃ creds, faccessat os proc dirfd pathname mode flags =
      ((atcall os (faccessatSwap os proc flags) dirfd pathname (-1)
          (call os (.access pathname mode))).1.value,
        { (atcall os (faccessatSwap os proc flags) dirfd pathname (-1)
            (call os (.access pathname mode))).2 with creds := creds }) := by
  unfold faccessat
  rw [if_neg (not_not.mpr allowed)]
  dsimp only
  split
  next value after result => exact ⟨after.creds, by rw [result]; rfl⟩
  next value after result =>
    rw [result]
    split <;> split <;> exact ⟨_, rfl⟩

theorem faccessat_traceless_iff {os : Os FS Dir} {proc : Proc FS Dir}
    (reachable : Reachable os proc) (dirfd : Int) (pathname : Path) (mode : Int)
    (flags : UInt32) :
    Traceless false (flaggedEntry (faccessatSwap os proc flags) dirfd pathname flags atEaccess)
        proc (faccessat os proc dirfd pathname mode flags).2
        (faccessat os proc dirfd pathname mode flags).1 ↔
      Guarded os
        (flaggedEntry (faccessatSwap os proc flags) dirfd pathname flags atEaccess) := by
  have same := faccessatSwap_sameSession os proc flags
  have swapped : Reachable os (faccessatSwap os proc flags) := by
    unfold Reachable
    rw [same.1]
    exact reachable
  by_cases allowed : flags &&& ~~~atEaccess = 0
  · have entry : flaggedEntry (faccessatSwap os proc flags) dirfd pathname flags atEaccess =
        some ⟨faccessatSwap os proc flags, dirfd, pathname⟩ := if_neg (not_not.mpr allowed)
    obtain ⟨creds, result⟩ := faccessat_atcall os proc dirfd pathname mode allowed
    rw [entry, guarded_some, result, traceless_creds, ← same.traceless_iff]
    exact atcall_traceless_iff swapped dirfd pathname (.access pathname mode)
  · have entry : flaggedEntry (faccessatSwap os proc flags) dirfd pathname flags atEaccess =
        none := if_pos allowed
    have refused : faccessat os proc dirfd pathname mode flags = proc.reject einval :=
      if_pos allowed
    rw [entry, refused]
    exact iff_of_true (reject_traceless false einval rfl rfl rfl) (guarded_none os)

theorem close_cwd (proc : Proc FS Dir) (fd : Int) : (close proc fd).2.cwd = proc.cwd := by
  unfold close
  split <;> rfl

theorem DescriptorsKept.close {before after : Proc FS Dir} {value : Int}
    (kept : DescriptorsKept true before after value) (fd : Nat) :
    ((close after value).2.fds fd).isSome ↔ (before.fds fd).isSome := by
  have opened := kept.kept fd
  by_cases returned : (fd : Int) = value
  · subst returned
    have fresh := kept.fresh fd rfl rfl
    simp only [fresh, and_true, Option.isSome_none, Bool.false_eq_true, false_or, iff_true]
      at opened
    simp [Atcalls.close, Proc.descriptor, Option.isSome_iff_ne_none.mp opened, fresh]
  · simp only [returned, and_false, or_false] at opened
    rw [← opened]
    unfold Atcalls.close
    split
    next => rfl
    next held =>
      have natural : 0 ≤ value := by
        by_contra negative
        simp [Proc.descriptor, negative] at held
      have different : fd ≠ value.toNat := by omega
      simp [Function.update_of_ne different]

theorem fstatDirectory_valid {os : Os FS Dir} {proc : Proc FS Dir} {fd : Int} {directory : Bool}
    (found : fstatDirectory os proc fd = .ok directory) : 0 ≤ fd := by
  by_contra negative
  simp [fstatDirectory, Proc.descriptor, negative] at found

theorem adopt_isSome (fds : Nat → Option (Descriptor Dir)) (adopted fd : Nat) :
    (Function.update fds adopted ((fds adopted).map Descriptor.adopt) fd).isSome =
      (fds fd).isSome := by
  by_cases same : fd = adopted
  · subst same
    simp
  · rw [Function.update_of_ne same]

theorem atcall_exits {os : Os FS Dir} {proc after : Proc FS Dir} {fd : Int} {p : Path}
    {onerr value : Int} {what : Proc FS Dir → Int × Proc FS Dir}
    (exits : atcall os proc fd p onerr what = (.exits value, after)) : value = onerr := by
  unfold atcall at exits
  split at exits
  · dsimp only at exits
    split at exits <;> cases exits
    rfl
  · cases exits

theorem traceless_failure {entry : Option (Entry FS Dir)} {before after : Proc FS Dir}
    (opens : Bool) :
    Traceless opens entry before after (-1) ↔ Traceless false entry before after (-1) := by
  have none : ∀ fd : Nat, ¬ (fd : Int) = -1 := by omega
  constructor
  · rintro ⟨cwd, ⟨kept, _⟩, errno⟩
    exact ⟨cwd, ⟨by simpa [none] using kept, nofun⟩, errno⟩
  · rintro ⟨cwd, ⟨kept, _⟩, errno⟩
    exact ⟨cwd, ⟨by simpa [none] using kept, fun fd _ same => absurd same (none fd)⟩, errno⟩

theorem traceless_adopted {entry place : Option (Entry FS Dir)} {before after : Proc FS Dir}
    {dir fd : Int} (valid : 0 ≤ fd) (kept : DescriptorsKept true before after dir)
    (errno : ErrorKept before after dir) :
    Traceless false entry before
        { (close after dir).2 with
          fds := Function.update (close after dir).2.fds fd.toNat
            (((close after dir).2.fds fd.toNat).map Descriptor.adopt) } fd ↔
      Traceless true place before after dir := by
  have cwd := close_cwd after dir
  constructor
  · rintro ⟨restored, _, _⟩
    exact ⟨cwd.symm.trans restored, kept, Or.inl errno⟩
  · rintro ⟨restored, _, _⟩
    refine ⟨cwd.trans restored, ⟨?_, nofun⟩, Or.inl fun failed => ?_⟩
    · intro descriptor
      simpa [adopt_isSome] using kept.close descriptor
    · omega

theorem fdopendir_traceless_iff {os : Os FS Dir} {proc : Proc FS Dir}
    (reachable : Reachable os proc) (fd : Int) :
    Traceless false (directoryEntry os proc fd) proc (fdopendir os proc fd).2
        (fdopendir os proc fd).1 ↔
      Guarded os (directoryEntry os proc fd) := by
  unfold fdopendir directoryEntry
  cases found : fstatDirectory os proc fd with
  | error error =>
      exact iff_of_true (reject_traceless false error rfl rfl rfl) (guarded_none os)
  | ok directory =>
      cases directory with
      | false => exact iff_of_true (reject_traceless false enotdir rfl rfl rfl) (guarded_none os)
      | true =>
          have valid := fstatDirectory_valid found
          have traceless := atcall_traceless_iff reachable fd ['.'] (.opendir ['.'])
          have kept := atcall_descriptorsKept reachable fd ['.'] (.opendir ['.'])
          have errno := atcall_errorKept os proc fd ['.'] (.opendir ['.'])
          rw [guarded_some, ← traceless]
          dsimp only
          split
          next value after exits =>
            rw [exits, Flow.value, atcall_exits exits]
            exact (traceless_failure true).symm
          next dir after yields =>
            rw [yields] at kept errno ⊢
            split
            next failed =>
              rw [Flow.value, failed]
              exact (traceless_failure true).symm
            next => exact traceless_adopted valid kept errno

/-! ## All of them -/

/-- A call of any of the functions leaves no trace of the macro exactly when the macro, where
it is entered, knows the way back. -/
theorem atFunctions_traceless_iff (abi : Abi) {os : Os FS Dir} {proc : Proc FS Dir}
    (function : AtFunction) {result : Int × Proc FS Dir} (reachable : Reachable os proc)
    (returned : function.run abi os proc = some result) :
    Traceless function.opens (function.entry os proc) proc result.2 result.1 ↔
      Guarded os (function.entry os proc) := by
  cases function with
  | faccessat dirfd pathname mode flags =>
      cases returned
      exact faccessat_traceless_iff reachable dirfd pathname mode flags
  | fchmodat dirfd pathname mode flags =>
      cases returned
      exact flaggedAtcall_traceless_iff reachable dirfd pathname flags _ rfl rfl
  | fchownat dirfd pathname owner group flags =>
      cases returned
      exact flaggedAtcall_traceless_iff reachable dirfd pathname flags _ rfl rfl
  | getattrlistat dirfd pathname a buf size flags =>
      simp only [AtFunction.run, Atcalls.getattrlistat] at returned
      split at returned
      next => cases returned
      next =>
        cases returned
        exact returnAtcall_traceless_iff reachable dirfd pathname
          (.getattrlist pathname a buf size flags)
  | linkat olddirfd oldpath newdirfd newpath flags =>
      cases returned
      exact linkat_traceless_iff reachable olddirfd oldpath newdirfd newpath flags
  | renameat olddirfd oldpath newdirfd newpath =>
      cases returned
      exact twoPathAtcall_traceless_iff reachable olddirfd oldpath newdirfd newpath
        fun _ _ => rfl
  | unlinkat dirfd pathname flags =>
      cases returned
      exact flaggedAtcall_traceless_iff reachable dirfd pathname flags _ rfl rfl
  | fstatat fd path buf flag =>
      cases returned
      exact flaggedAtcall_traceless_iff reachable fd path flag _ rfl rfl
  | fstatatInode64 fd path buf flag =>
      cases returned
      exact flaggedAtcall_traceless_iff reachable fd path flag _ rfl rfl
  | fstatat64 fd path buf flag =>
      cases returned
      exact flaggedAtcall_traceless_iff reachable fd path flag _ rfl rfl
  | fdopendir fd =>
      cases returned
      exact fdopendir_traceless_iff reachable fd
  | mkdirat dirfd pathname mode =>
      cases returned
      exact returnAtcall_traceless_iff reachable dirfd pathname (.mkdir pathname mode)
  | openat dirfd pathname flags mode =>
      cases returned
      exact returnAtcall_traceless_iff reachable dirfd pathname (.open pathname flags _)
  | openatNocancel dirfd pathname flags mode =>
      cases returned
      exact returnAtcall_traceless_iff reachable dirfd pathname (.open pathname flags _)
  | readlinkat dirfd pathname buf bufsiz =>
      cases returned
      exact returnAtcall_traceless_iff reachable dirfd pathname (.readlink pathname buf bufsiz)
  | symlinkat oldpath newdirfd newpath =>
      cases returned
      exact returnAtcall_traceless_iff reachable newdirfd newpath (.symlink oldpath newpath)
  | setattrlistat dirfd pathname a buf size flags =>
      cases returned
      exact returnAtcall_traceless_iff reachable dirfd pathname
        (.setattrlist pathname a buf size flags)

theorem swapUids (creds : Creds) : ⟨creds.euid, creds.ruid, creds.rgid, creds.egid⟩ =
    { creds with ruid := creds.euid, euid := creds.ruid } := rfl

theorem swapGids (creds : Creds) : ⟨creds.ruid, creds.euid, creds.egid, creds.rgid⟩ =
    { creds with rgid := creds.egid, egid := creds.rgid } := rfl

def plainOs (dot : Except Errno Nat) : Os Unit Nat where
  setreuid creds ruid euid := { creds with ruid := ruid, euid := euid }
  setregid creds rgid egid := { creds with rgid := rgid, egid := egid }
  openDot proc := dot.bind fun fd => if (proc.fds fd).isNone then .ok fd else .error 24
  chdirError _ _ _ := none
  noOwnCwd := einval
  getpath _ _ := .ok []
  fstatError _ _ := none
  exec syscall proc :=
    if syscall.opens then if (proc.fds 9).isNone then .ok 9 else .error 24 else .ok 0
  opened _ _ := ⟨.file 0, 0, false⟩
  fsAfter _ _ := ()
  setreuid_swap := swapUids
  setregid_swap := swapGids
  openDot_fresh proc fd opened := by
    cases dot with
    | error error => cases opened
    | ok given =>
        simp only [Except.bind] at opened
        split at opened
        next free =>
          cases opened
          exact Option.isNone_iff_eq_none.mp free
        next => cases opened
  exec_fresh syscall proc fd opens succeeded := by
    rw [if_pos opens] at succeeded
    split at succeeded
    next free =>
      cases succeeded
      exact Option.isNone_iff_eq_none.mp free
    next => cases succeeded

def ownCwdProc : Proc Unit Nat where
  creds := ⟨501, 0, 20, 0⟩
  cwd := .perThread 1 (some 2)
  fds fd := if fd = 3 then some ⟨.directory 4, 0, false⟩ else none
  errno := 0
  fs := ()
  log := []

theorem atFunctions_traceless_fchmodat :
    Traceless false (some ⟨ownCwdProc, 3, ['f']⟩) ownCwdProc
      (fchmodat (plainOs (.ok 5)) ownCwdProc 3 ['f'] 0o644 0).2
      (fchmodat (plainOs (.ok 5)) ownCwdProc 3 ['f'] 0o644 0).1 := by
  refine (atFunctions_traceless_iff .lp64 (.fchmodat 3 ['f'] 0o644 0) (fun _ _ => rfl) rfl).mpr ?_
  rintro place ⟨⟩
  exact Or.inr (Or.inl ⟨5, rfl⟩)

/-- Where the current directory cannot be opened, the thread loses its own one. -/
theorem mkdirat_loses_cwd :
    Reachable (plainOs (.error 13)) ownCwdProc ∧
      (mkdirat (plainOs (.error 13)) ownCwdProc 3 ['d'] 0o755).1 = 0 ∧
      (mkdirat (plainOs (.error 13)) ownCwdProc 3 ['d'] 0o755).2.cwd = .perThread 1 none ∧
      ¬ Traceless (AtFunction.mkdirat 3 ['d'] 0o755).opens
        ((AtFunction.mkdirat 3 ['d'] 0o755).entry (plainOs (.error 13)) ownCwdProc) ownCwdProc
        (mkdirat (plainOs (.error 13)) ownCwdProc 3 ['d'] 0o755).2
        (mkdirat (plainOs (.error 13)) ownCwdProc 3 ['d'] 0o755).1 := by
  have lost : (mkdirat (plainOs (.error 13)) ownCwdProc 3 ['d'] 0o755).2.cwd =
      .perThread 1 none := rfl
  refine ⟨fun _ _ => rfl, rfl, lost, fun traceless => ?_⟩
  have kept := lost.symm.trans traceless.cwd
  cases kept

end LegacySupport.Atcalls
