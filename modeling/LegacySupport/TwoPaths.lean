import LegacySupport.Faccessat
import LegacySupport.PathNames

/-!
What `renameat` and `linkat` do to the tree of files, against `rename` and `link` of the names
that the two paths give. Where both paths are relative under different descriptors, the functions
go by full paths, which are cut off at the size of a buffer.
-/

namespace LegacySupport.Atcalls

open PathNames

variable {FS Dir : Type}

def enoent : Errno := 2
def enametoolong : Errno := 63

inductive PairCall
  | rename
  | link
  deriving DecidableEq

def PairCall.syscall : PairCall → Path → Path → Syscall
  | .rename => .rename
  | .link => .link

/-- A tree of files, as a system resolves names in it: the root, what one component of a path
leads to, and what `rename` and `link` make of two names. -/
structure Tree (FS Dir : Type) where
  root : FS → Dir
  enter : FS → Creds → Dir → Component → Except Errno Dir
  perform : PairCall → FS → Creds → Name Dir → Name Dir → Except Errno FS

def Tree.name (tree : Tree FS Dir) (fs : FS) (creds : Creds) (start : Dir) (path : Path) :
    Except Errno (Name Dir) :=
  if path = [] then .error enoent
  else if pathMax ≤ path.length then .error enametoolong
  else
    locate (tree.enter fs creds) (if path.head? = some '/' then tree.root fs else start)
      (components path) (endsInSlash path)

def Tree.apply (tree : Tree FS Dir) (pair : PairCall) (fs : FS) (creds : Creds) (oldStart : Dir)
    (oldpath : Path) (newStart : Dir) (newpath : Path) : Except Errno FS :=
  (tree.name fs creds oldStart oldpath).bind fun old =>
    (tree.name fs creds newStart newpath).bind fun new => tree.perform pair fs creds old new

structure Performs (os : Os FS Dir) (tree : Tree FS Dir) : Prop where
  exec : ∀ (pair : PairCall) (old new : Path) (proc : Proc FS Dir),
    os.exec (pair.syscall old new) proc =
      (tree.apply pair proc.fs proc.creds proc.cwd.here old proc.cwd.here new).map fun _ => 0
  fsAfter : ∀ (pair : PairCall) (old new : Path) (proc : Proc FS Dir),
    os.fsAfter (pair.syscall old new) proc =
      match tree.apply pair proc.fs proc.creds proc.cwd.here old proc.cwd.here new with
      | .ok fs => fs
      | .error _ => proc.fs

def dirOf (proc : Proc FS Dir) (fd : Int) : Option Dir :=
  if fd = atFdcwd then some proc.cwd.here
  else
    match proc.descriptor fd with
    | some ⟨.directory dir, _, _⟩ => some dir
    | _ => none

/-- The descriptor is that of a directory, and the path is the current absolute path of it where
`F_GETPATH` gives one. -/
structure OpenedAt (os : Os FS Dir) (tree : Tree FS Dir) (proc : Proc FS Dir) (fd : Int)
    (dir : Dir) (dirPath : Path) : Prop where
  opened : dirOf proc fd = some dir
  getpath : ∀ found, os.getpath proc.fs (.directory dir) = .ok found → found = dirPath
  absolute : dirPath.head? = some '/'
  bounded : dirPath.length < pathMax
  named : ∀ reached,
    walk (tree.enter proc.fs proc.creds) (tree.root proc.fs) (components dirPath) = .ok reached →
      reached = dir

def Outcome (before after : Proc FS Dir) (value : Int) (meant : Except Errno FS) : Prop :=
  match meant with
  | .ok fs => value = 0 ∧ after.fs = fs
  | .error _ => value = -1 ∧ after.fs = before.fs

def PathUnavailable (os : Os FS Dir) (tree : Tree FS Dir) (proc : Proc FS Dir) (fd : Int) : Prop :=
  (fd = atFdcwd ∧ ∃ error, os.openDot proc = .error error) ∨
    (∃ dir error, dirOf proc fd = some dir ∧
      os.getpath proc.fs (.directory dir) = .error error) ∨
    ∃ dir found error, dirOf proc fd = some dir ∧
      os.getpath proc.fs (.directory dir) = .ok found ∧
      walk (tree.enter proc.fs proc.creds) (tree.root proc.fs) (components found) = .error error

def SetupFails (os : Os FS Dir) (tree : Tree FS Dir) (proc : Proc FS Dir) (olddirfd : Int)
    (oldpath : Path) (newdirfd : Int) (newpath : Path) : Prop :=
  match twoPathEntry proc olddirfd oldpath newdirfd newpath with
  | some place => ¬ Direct place.fd place.path ∧ Refused os place.start place.fd
  | none => PathUnavailable os tree proc olddirfd ∨ PathUnavailable os tree proc newdirfd

/-- The result is exactly that of the call on the names meant, or the function cannot get to them,
fails, and leaves the tree as it was. -/
def ActsOnNames (os : Os FS Dir) (tree : Tree FS Dir) (pair : PairCall) (proc : Proc FS Dir)
    (olddirfd : Int) (oldpath : Path) (newdirfd : Int) (newpath : Path) (oldDir newDir : Dir)
    (result : Int × Proc FS Dir) : Prop :=
  Outcome proc result.2 result.1
      (tree.apply pair proc.fs proc.creds oldDir oldpath newDir newpath) ∨
    (SetupFails os tree proc olddirfd oldpath newdirfd newpath ∧ result.1 = -1 ∧
      result.2.fs = proc.fs)

def fullPath (dirPath path : Path) : Path := strlcat (strlcat dirPath ['/']) path

def NameKept (dirPath path : Path) : Prop :=
  path ≠ [] ∧ components (fullPath dirPath path) = components dirPath ++ components path ∧
    endsInSlash (fullPath dirPath path) = endsInSlash path

/-- The functions do not go by full paths, or both names survive in the buffers. -/
def NamesKept (olddirfd : Int) (oldDirPath oldpath : Path) (newdirfd : Int)
    (newDirPath newpath : Path) : Prop :=
  oldpath.head? = some '/' ∨ newpath.head? = some '/' ∨ olddirfd = newdirfd ∨
    (NameKept oldDirPath oldpath ∧ NameKept newDirPath newpath)

/-! ## Full paths -/

theorem fullPath_fits (dirPath path : Path) (fits : dirPath.length + 1 + path.length < pathMax) :
    fullPath dirPath path = dirPath ++ '/' :: path := by
  have slashed : strlcat dirPath ['/'] = dirPath ++ ['/'] := by
    apply List.take_of_length_le
    simp only [List.length_append, List.length_singleton]
    omega
  unfold fullPath
  rw [slashed]
  have whole : (dirPath ++ ['/'] ++ path).length = dirPath.length + 1 + path.length := by
    simp only [List.length_append, List.length_singleton]
  rw [strlcat, List.take_of_length_le (by omega), List.append_assoc]
  rfl

theorem nameKept_of_fits (dirPath path : Path) (nonempty : path ≠ [])
    (fits : dirPath.length + 1 + path.length < pathMax) : NameKept dirPath path := by
  refine ⟨nonempty, ?_, ?_⟩
  · rw [fullPath_fits dirPath path fits, components_join]
  · rw [fullPath_fits dirPath path fits, List.append_cons]
    exact endsInSlash_append _ _ nonempty

theorem strlcat_length (buf suffix : Path) (bounded : buf.length < pathMax) :
    (strlcat buf suffix).length < pathMax := by
  have positive : 0 < pathMax := by decide
  rw [strlcat, List.length_take]
  omega

theorem strlcat_head (buf suffix : Path) (char : Char) (head : buf.head? = some char) :
    (strlcat buf suffix).head? = some char := by
  cases buf with
  | nil => cases head
  | cons first rest =>
      have bound : max (first :: rest).length (pathMax - 1) ≠ 0 := by
        simp only [List.length_cons]
        omega
      obtain ⟨count, same⟩ := Nat.exists_eq_succ_of_ne_zero bound
      rw [strlcat, same, List.cons_append, List.take_succ_cons]
      exact head

section Names

variable (tree : Tree FS Dir) (fs : FS) (creds : Creds)

theorem name_absolute (start other : Dir) (path : Path) (absolute : path.head? = some '/') :
    tree.name fs creds start path = tree.name fs creds other path := by
  unfold Tree.name
  rw [if_pos absolute, if_pos absolute]

theorem name_fullPath (here dir : Dir) (dirPath path : Path) (absolute : dirPath.head? = some '/')
    (bounded : dirPath.length < pathMax) (short : path.length < pathMax)
    (relative : path.head? ≠ some '/')
    (named : ∀ reached,
      walk (tree.enter fs creds) (tree.root fs) (components dirPath) = .ok reached →
        reached = dir)
    (kept : NameKept dirPath path) :
    (∃ error, walk (tree.enter fs creds) (tree.root fs) (components dirPath) = .error error ∧
      ∃ other, tree.name fs creds here (fullPath dirPath path) = .error other) ∨
    tree.name fs creds here (fullPath dirPath path) = tree.name fs creds dir path := by
  obtain ⟨nonempty, parts, slash⟩ := kept
  have head : (fullPath dirPath path).head? = some '/' :=
    strlcat_head _ _ _ (strlcat_head _ _ _ absolute)
  have fullNonempty : fullPath dirPath path ≠ [] := by
    intro empty
    rw [empty] at head
    cases head
  have length : (fullPath dirPath path).length < pathMax :=
    strlcat_length _ _ (strlcat_length _ _ bounded)
  have located : components path ≠ [] := components_ne_nil path nonempty relative
  unfold Tree.name
  rw [if_neg fullNonempty, if_neg (by omega), if_pos head, if_neg nonempty, if_neg (by omega),
    if_neg relative, parts, slash]
  cases walked : walk (tree.enter fs creds) (tree.root fs) (components dirPath) with
  | error error =>
      left
      exact ⟨error, rfl, error,
        locate_append_error (tree.enter fs creds) (tree.root fs) error _ _ _ walked located⟩
  | ok reached =>
      right
      rw [named reached walked] at walked
      exact locate_append (tree.enter fs creds) (tree.root fs) dir _ _ _ walked located

end Names

/-! ## The tree on the way to a call -/

theorem update_of_present {fds : Nat → Option (Descriptor Dir)} {fresh fd : Nat}
    {descriptor : Descriptor Dir} (free : fds fresh = none) (present : fds fd = some descriptor)
    (value : Option (Descriptor Dir)) : Function.update fds fresh value fd = some descriptor := by
  have different : fd ≠ fresh := by
    intro same
    rw [same, free] at present
    cases present
  rw [Function.update_of_ne different, present]

theorem saveCwd_descriptor (os : Os FS Dir) (proc : Proc FS Dir) (fd : Nat)
    (descriptor : Descriptor Dir) (present : proc.fds fd = some descriptor) :
    (saveCwd os proc).2.fds fd = some descriptor := by
  have probed := (mplsBestFchdir_fs os (openDot os proc).2 (-1)).2
  have opened : (openDot os proc).2.fds fd = some descriptor ∧
      ∀ dot : Nat, (openDot os proc).1 = dot → proc.fds dot = none := by
    cases dot : os.openDot proc with
    | error error =>
        rw [openDot_error dot]
        refine ⟨present, fun opened same => ?_⟩
        have negative : (-1 : Int) = opened := same
        omega
    | ok opened =>
        have free := os.openDot_fresh proc opened dot
        rw [openDot_ok dot]
        refine ⟨update_of_present free present _, fun other same => ?_⟩
        have equal : (opened : Int) = other := same
        rw [← Int.ofNat.inj equal]
        exact free
  unfold saveCwd
  simp only
  split
  next failed =>
    unfold close
    split
    next => rw [Proc.fail, probed]; exact opened.1
    next valid =>
      have nonneg : 0 ≤ (openDot os proc).1 := by
        by_contra negative
        simp [Proc.descriptor, negative] at valid
      have free := opened.2 (openDot os proc).1.toNat (Int.toNat_of_nonneg nonneg).symm
      have different : fd ≠ (openDot os proc).1.toNat := by
        intro same
        rw [same, free] at present
        cases present
      simp only
      rw [Function.update_of_ne different, probed]
      exact opened.1
  next => rw [probed]; exact opened.1

theorem call_outcome {os : Os FS Dir} {tree : Tree FS Dir} (performs : Performs os tree)
    (pair : PairCall) (proc : Proc FS Dir) (old new : Path) :
    Outcome proc (call os (pair.syscall old new) proc).2 (call os (pair.syscall old new) proc).1
      (tree.apply pair proc.fs proc.creds proc.cwd.here old proc.cwd.here new) := by
  have exec := performs.exec pair old new proc
  have fsAfter := performs.fsAfter pair old new proc
  unfold call
  generalize tree.apply pair proc.fs proc.creds proc.cwd.here old proc.cwd.here new = meant
    at exec fsAfter ⊢
  cases meant with
  | error error =>
      have refused : os.exec (pair.syscall old new) proc = .error error := exec
      rw [refused]
      exact ⟨rfl, fsAfter⟩
  | ok fs =>
      have succeeded : os.exec (pair.syscall old new) proc = .ok 0 := exec
      rw [succeeded]
      exact ⟨rfl, fsAfter⟩

theorem enter_here (cwd : Cwd Dir) (dir : Dir) : (cwd.enter dir).here = dir := by
  cases cwd with
  | perThread process thread => rfl
  | processWide process => rfl

theorem dirOf_descriptor {proc : Proc FS Dir} {fd : Int} {dir : Dir}
    (opened : dirOf proc fd = some dir) (given : fd ≠ atFdcwd) :
    0 ≤ fd ∧ ∃ descriptor, proc.fds fd.toNat = some descriptor ∧
      descriptor.target = .directory dir := by
  unfold dirOf Proc.descriptor at opened
  rw [if_neg given] at opened
  by_cases nonneg : 0 ≤ fd
  · rw [if_pos nonneg] at opened
    refine ⟨nonneg, ?_⟩
    split at opened
    next found =>
      cases opened
      exact ⟨_, found, rfl⟩
    next => cases opened
  · rw [if_neg nonneg] at opened
    cases opened

theorem returnAtcall_outcome {os : Os FS Dir} {tree : Tree FS Dir} (performs : Performs os tree)
    (pair : PairCall) (proc : Proc FS Dir) (fd : Int) (dir : Dir) (p old new : Path)
    (opened : dirOf proc fd = some dir) :
    (∃ start, (start = dir ∨ p.head? = some '/') ∧
      Outcome proc (returnAtcall os proc fd p (pair.syscall old new)).2
        (returnAtcall os proc fd p (pair.syscall old new)).1
        (tree.apply pair proc.fs proc.creds start old start new)) ∨
      (¬ Direct fd p ∧ Refused os proc fd ∧
        (returnAtcall os proc fd p (pair.syscall old new)).1 = -1 ∧
        (returnAtcall os proc fd p (pair.syscall old new)).2.fs = proc.fs) := by
  unfold returnAtcall
  simp only
  rcases atcall_cases os proc fd p (-1) (pair.syscall old new) with
    ⟨direct, result⟩ | ⟨relative, error, failed, result⟩ | ⟨relative, cwd, entered, moved, result⟩
  · left
    rw [result]
    refine ⟨proc.cwd.here, ?_, call_outcome performs pair proc old new⟩
    rcases direct with here | absolute
    · unfold dirOf at opened
      rw [if_pos here] at opened
      exact Or.inl (Option.some.inj opened)
    · exact Or.inr absolute
  · right
    have negative : (mplsBestFchdir os (saveCwd os proc).2 fd).1 < 0 := by
      rw [failed]
      exact Int.negSucc_lt_zero 0
    refine ⟨relative, (enter_fails_iff os proc fd).mp negative, ?_, ?_⟩
    · rw [result]
      rfl
    · rw [result]
      simp only [restoreCwd_fs, saveCwd_fs]
  · left
    have given : fd ≠ atFdcwd := fun here => relative (Or.inl here)
    obtain ⟨nonneg, descriptor, present, target⟩ := dirOf_descriptor opened given
    have held := saveCwd_descriptor os proc fd.toNat descriptor present
    have here : cwd.here = dir := by
      rcases moved with ⟨-, dir', reached, same⟩ | ⟨minusOne, -⟩
      · unfold chdirTarget Proc.descriptor at reached
        rw [if_pos nonneg, held] at reached
        simp only [target] at reached
        split at reached
        next => cases reached
        next =>
          cases reached
          rw [same, enter_here]
      · omega
    have creds := (saveCwd_sameActor os proc).1
    have files := saveCwd_fs os proc
    have made := call_outcome performs pair { (saveCwd os proc).2 with cwd := cwd } old new
    simp only [here, creds, files] at made
    refine ⟨dir, Or.inl rfl, ?_⟩
    rw [result]
    unfold Outcome at made ⊢
    simp only [restoreCwd_fs, Flow.value, creds, files]
    exact made

theorem fullpathat_cases (os : Os FS Dir) (tree : Tree FS Dir) {proc : Proc FS Dir} {fd : Int}
    {dir : Dir} (opened : dirOf proc fd = some dir) (relative : Path) :
    (PathUnavailable os tree proc fd ∧ ∃ error after,
      fullpathat os proc fd relative = (.error error, after) ∧ after.fs = proc.fs) ∨
    ∃ found, os.getpath proc.fs (.directory dir) = .ok found ∧
      fullpathat os proc fd relative = (.ok (fullPath found relative), proc) := by
  unfold fullpathat
  by_cases here : fd = atFdcwd
  · rw [if_pos here]
    have same : proc.cwd.here = dir := by
      unfold dirOf at opened
      rw [if_pos here] at opened
      exact Option.some.inj opened
    cases dot : os.openDot proc with
    | error error =>
        left
        rw [openDot_error dot]
        exact ⟨Or.inl ⟨here, error, dot⟩, error, _, rfl, rfl⟩
    | ok oldCwd =>
        have fresh := os.openDot_fresh proc oldCwd dot
        have given : (oldCwd : Int) ≠ -1 := by omega
        have restored := update_fresh fresh (some (dotDescriptor proc.cwd.here))
        simp only [openDot_ok dot, if_neg given]
        simp only [fcntlGetpath, Proc.descriptor, Int.natCast_nonneg, if_true, Int.toNat_natCast,
          Function.update_self, dotDescriptor, same]
        cases path : os.getpath proc.fs (.directory dir) with
        | error error =>
            left
            refine ⟨Or.inr (Or.inl ⟨dir, error, opened, path⟩), error, _, rfl, ?_⟩
            exact close_fs _ _
        | ok found =>
            right
            refine ⟨found, rfl, ?_⟩
            simp only [close, Proc.descriptor, Int.natCast_nonneg, if_true, Int.toNat_natCast,
              Function.update_self, Option.isNone_some, Bool.false_eq_true, if_false]
            rw [← same]
            have whole : { proc with fds := Function.update (Function.update proc.fds oldCwd
                (some (dotDescriptor proc.cwd.here))) oldCwd none } = proc := by
              rw [restored]
            rw [dotDescriptor] at whole
            rw [whole]
            rfl
  · rw [if_neg here]
    obtain ⟨nonneg, descriptor, present, target⟩ := dirOf_descriptor opened here
    simp only [fcntlGetpath, Proc.descriptor, if_pos nonneg, present, target]
    cases path : os.getpath proc.fs (.directory dir) with
    | error error =>
        left
        exact ⟨Or.inr (Or.inl ⟨dir, error, opened, path⟩), error, _, rfl, rfl⟩
    | ok found =>
        right
        exact ⟨found, rfl, rfl⟩

structure Setting (os : Os FS Dir) (tree : Tree FS Dir) (proc : Proc FS Dir) (olddirfd : Int)
    (oldDir : Dir) (oldDirPath : Path) (newdirfd : Int) (newDir : Dir) (newDirPath : Path) :
    Prop where
  performs : Performs os tree
  old : OpenedAt os tree proc olddirfd oldDir oldDirPath
  new : OpenedAt os tree proc newdirfd newDir newDirPath

theorem Outcome.unnamed {tree : Tree FS Dir} {proc after : Proc FS Dir} {value : Int}
    {pair : PairCall} {oldDir newDir : Dir} {old new : Path}
    (outcome : Outcome proc after value
      (tree.apply pair proc.fs proc.creds oldDir old newDir new))
    (unnamed : (∃ error, tree.name proc.fs proc.creds oldDir old = .error error) ∨
      ∃ error, tree.name proc.fs proc.creds newDir new = .error error) :
    value = -1 ∧ after.fs = proc.fs := by
  rw [Tree.apply] at outcome
  rcases unnamed with ⟨error, unnamed⟩ | ⟨error, unnamed⟩
  · rw [unnamed] at outcome
    exact outcome
  · rw [unnamed] at outcome
    cases named : tree.name proc.fs proc.creds oldDir old with
    | error error =>
        rw [named] at outcome
        exact outcome
    | ok name =>
        rw [named] at outcome
        exact outcome

theorem fullPaths_outcome {os : Os FS Dir} {tree : Tree FS Dir} {proc : Proc FS Dir}
    {olddirfd newdirfd : Int} {oldDir newDir : Dir}
    {oldDirPath newDirPath oldpath newpath oldFound newFound : Path} (performs : Performs os tree)
    (old : OpenedAt os tree proc olddirfd oldDir oldDirPath)
    (new : OpenedAt os tree proc newdirfd newDir newDirPath)
    (oldShort : oldpath.length < pathMax) (newShort : newpath.length < pathMax)
    (oldRelative : oldpath.head? ≠ some '/') (newRelative : newpath.head? ≠ some '/')
    (pair : PairCall) (oldKept : NameKept oldDirPath oldpath)
    (newKept : NameKept newDirPath newpath)
    (oldGetpath : os.getpath proc.fs (.directory oldDir) = .ok oldFound)
    (newGetpath : os.getpath proc.fs (.directory newDir) = .ok newFound) :
    let called := call os (pair.syscall (fullPath oldFound oldpath) (fullPath newFound newpath))
      proc
    Outcome proc called.2 called.1
        (tree.apply pair proc.fs proc.creds oldDir oldpath newDir newpath) ∨
      ((PathUnavailable os tree proc olddirfd ∨ PathUnavailable os tree proc newdirfd) ∧
        called.1 = -1 ∧ called.2.fs = proc.fs) := by
  obtain rfl := old.getpath oldFound oldGetpath
  obtain rfl := new.getpath newFound newGetpath
  have outcome := call_outcome performs pair proc (fullPath oldFound oldpath)
    (fullPath newFound newpath)
  rcases name_fullPath tree proc.fs proc.creds proc.cwd.here oldDir oldFound oldpath
    old.absolute old.bounded oldShort oldRelative old.named oldKept with
    ⟨walkError, unwalked, unnamed⟩ | oldName
  · right
    exact ⟨Or.inl (Or.inr (Or.inr ⟨_, _, _, old.opened, oldGetpath, unwalked⟩)),
      outcome.unnamed (Or.inl unnamed)⟩
  rcases name_fullPath tree proc.fs proc.creds proc.cwd.here newDir newFound newpath
    new.absolute new.bounded newShort newRelative new.named newKept with
    ⟨walkError, unwalked, unnamed⟩ | newName
  · right
    exact ⟨Or.inr (Or.inr (Or.inr ⟨_, _, _, new.opened, newGetpath, unwalked⟩)),
      outcome.unnamed (Or.inr unnamed)⟩
  · left
    rw [Tree.apply, oldName, newName] at outcome
    exact outcome

theorem twoPathAtcall_actsOnNames {os : Os FS Dir} {tree : Tree FS Dir} {proc : Proc FS Dir}
    {olddirfd newdirfd : Int} {oldDir newDir : Dir} {oldDirPath newDirPath oldpath newpath : Path}
    (setting : Setting os tree proc olddirfd oldDir oldDirPath newdirfd newDir newDirPath)
    (oldShort : oldpath.length < pathMax) (newShort : newpath.length < pathMax) (pair : PairCall)
    (kept : NamesKept olddirfd oldDirPath oldpath newdirfd newDirPath newpath) :
    ActsOnNames os tree pair proc olddirfd oldpath newdirfd newpath oldDir newDir
      (twoPathAtcall os proc olddirfd oldpath newdirfd newpath pair.syscall) := by
  obtain ⟨performs, old, new⟩ := setting
  unfold ActsOnNames SetupFails twoPathAtcall twoPathEntry
  by_cases oldAbsolute : oldpath.head? = some '/'
  · simp only [if_pos oldAbsolute]
    rcases returnAtcall_outcome performs pair proc newdirfd newDir newpath oldpath newpath
      new.opened with ⟨start, same, outcome⟩ | ⟨relative, refused, failed, files⟩
    · left
      have oldName := name_absolute tree proc.fs proc.creds start oldDir oldpath oldAbsolute
      have newName : tree.name proc.fs proc.creds start newpath =
          tree.name proc.fs proc.creds newDir newpath := by
        rcases same with same | absolute
        · rw [same]
        · exact name_absolute tree proc.fs proc.creds start newDir newpath absolute
      rw [Tree.apply, oldName, newName] at outcome
      exact outcome
    · exact Or.inr ⟨⟨relative, refused⟩, failed, files⟩
  · simp only [if_neg oldAbsolute]
    by_cases together : newpath.head? = some '/' ∨ olddirfd = newdirfd
    · simp only [if_pos together]
      rcases returnAtcall_outcome performs pair proc olddirfd oldDir oldpath oldpath newpath
        old.opened with ⟨start, same, outcome⟩ | ⟨relative, refused, failed, files⟩
      · left
        rw [same.resolve_right oldAbsolute] at outcome
        have newName : tree.name proc.fs proc.creds oldDir newpath =
            tree.name proc.fs proc.creds newDir newpath := by
          rcases together with absolute | sameFd
          · exact name_absolute tree proc.fs proc.creds oldDir newDir newpath absolute
          · have opened := old.opened
            rw [sameFd, new.opened] at opened
            rw [Option.some.inj opened]
        rw [Tree.apply, newName] at outcome
        exact outcome
      · exact Or.inr ⟨⟨relative, refused⟩, failed, files⟩
    · simp only [if_neg together]
      have newRelative : newpath.head? ≠ some '/' := fun absolute => together (Or.inl absolute)
      obtain ⟨oldKept, newKept⟩ : NameKept oldDirPath oldpath ∧ NameKept newDirPath newpath := by
        rcases kept with absolute | absolute | sameFd | both
        · exact absurd absolute oldAbsolute
        · exact absurd absolute newRelative
        · exact absurd (Or.inr sameFd) together
        · exact both
      rcases fullpathat_cases os tree old.opened oldpath with
        ⟨unavailable, error, after, failed, files⟩ | ⟨oldFound, oldGetpath, oldFull⟩
      · right
        simp only [failed]
        exact ⟨Or.inl unavailable, rfl, files⟩
      · simp only [oldFull]
        rcases fullpathat_cases os tree new.opened newpath with
          ⟨unavailable, error, after, failed, files⟩ | ⟨newFound, newGetpath, newFull⟩
        · right
          simp only [failed]
          exact ⟨Or.inr unavailable, rfl, files⟩
        · simp only [newFull]
          exact fullPaths_outcome performs old new oldShort newShort oldAbsolute newRelative pair
            oldKept newKept oldGetpath newGetpath

/-! ## Systems made of a tree -/

def Syscall.pair? : Syscall → Option (PairCall × Path × Path)
  | .rename old new => some (.rename, old, new)
  | .link old new => some (.link, old, new)
  | _ => none

def Tree.os (tree : Tree FS Dir) (dot : Nat) (getpath : FS → Target Dir → Except Errno Path) :
    Os FS Dir where
  setreuid creds ruid euid := { creds with ruid := ruid, euid := euid }
  setregid creds rgid egid := { creds with rgid := rgid, egid := egid }
  openDot proc := if (proc.fds dot).isNone then .ok dot else .error 24
  chdirError _ _ _ := none
  noOwnCwd := einval
  getpath := getpath
  fstatError _ _ := none
  exec syscall proc :=
    match syscall.pair? with
    | some (pair, old, new) =>
        (tree.apply pair proc.fs proc.creds proc.cwd.here old proc.cwd.here new).map fun _ => 0
    | none => if syscall.opens then .error 24 else .ok 0
  opened _ proc := ⟨.directory proc.cwd.here, 0, false⟩
  fsAfter syscall proc :=
    match syscall.pair? with
    | some (pair, old, new) =>
        match tree.apply pair proc.fs proc.creds proc.cwd.here old proc.cwd.here new with
        | .ok fs => fs
        | .error _ => proc.fs
    | none => proc.fs
  setreuid_swap := swapUids
  setregid_swap := swapGids
  openDot_fresh proc fd opened := by
    split at opened
    next free =>
      cases opened
      exact Option.isNone_iff_eq_none.mp free
    next => cases opened
  exec_fresh syscall proc fd opens succeeded := by
    cases syscall with
    | rename old new => cases opens
    | link old new => cases opens
    | «open» path flags mode => cases succeeded
    | opendir path => cases succeeded
    | _ => cases opens

theorem tree_os_performs (tree : Tree FS Dir) (dot : Nat)
    (getpath : FS → Target Dir → Except Errno Path) : Performs (tree.os dot getpath) tree where
  exec pair old new proc := by
    cases pair with
    | rename => rfl
    | link => rfl
  fsAfter pair old new proc := by
    cases pair with
    | rename => rfl
    | link => rfl

/-! ## Every name exists -/

abbrev FreeDir := List Component

/-- The tree in which every name leads to a directory and every call succeeds; it keeps the names
that it has been called with. -/
def freeTree : Tree (List (PairCall × Name FreeDir × Name FreeDir)) FreeDir where
  root _ := []
  enter _ _ dir part := .ok (dir ++ [part])
  perform pair fs _ old new := .ok ((pair, old, new) :: fs)

theorem freeWalk (parts : List Component) : ∀ start : FreeDir,
    walk (freeTree.enter [] ⟨0, 0, 0, 0⟩) start parts = .ok (start ++ parts) := by
  induction parts with
  | nil =>
      intro start
      rw [walk, List.append_nil]
  | cons part parts ih =>
      intro start
      have entered : freeTree.enter [] ⟨0, 0, 0, 0⟩ start part = .ok (start ++ [part]) := rfl
      rw [walk, entered, Except.bind, ih, List.append_assoc]
      rfl

theorem freeLocate (start : FreeDir) (parts : List Component) (slash : Bool)
    (nonempty : parts ≠ []) :
    locate (freeTree.enter [] ⟨0, 0, 0, 0⟩) start parts slash =
      .ok ⟨start ++ parts.dropLast, some (parts.getLast nonempty), slash⟩ := by
  rw [locate, List.getLast?_eq_some_getLast nonempty]
  simp only [freeWalk, Except.map]

theorem freeLocate_ok (start : FreeDir) (parts : List Component) (slash : Bool) :
    ∃ name, locate (freeTree.enter [] ⟨0, 0, 0, 0⟩) start parts slash = .ok name := by
  by_cases empty : parts = []
  · rw [empty]
    exact ⟨_, rfl⟩
  · exact ⟨_, freeLocate start parts slash empty⟩

theorem freeLocate_inj (dir : FreeDir) (whole parts : List Component) (wholeSlash slash : Bool)
    (nonempty : parts ≠ [])
    (same : locate (freeTree.enter [] ⟨0, 0, 0, 0⟩) [] whole wholeSlash =
      locate (freeTree.enter [] ⟨0, 0, 0, 0⟩) dir parts slash) :
    whole = dir ++ parts ∧ wholeSlash = slash := by
  rw [freeLocate dir parts slash nonempty] at same
  by_cases empty : whole = []
  · rw [empty] at same
    obtain ⟨-, lasts, -⟩ := Name.mk.inj (Except.ok.inj same)
    cases lasts
  · rw [freeLocate [] whole wholeSlash empty] at same
    have names := Except.ok.inj same
    obtain ⟨dirs, lasts, slashes⟩ := Name.mk.inj names
    refine ⟨?_, slashes⟩
    rw [← List.dropLast_append_getLast empty, ← List.dropLast_append_getLast nonempty,
      ← List.append_assoc, ← dirs, Option.some.inj lasts, List.nil_append]

structure DirPaths (olddirfd : Int) (oldDirPath : Path) (newdirfd : Int) (newDirPath : Path) :
    Prop where
  oldFd : olddirfd = atFdcwd ∨ 0 ≤ olddirfd
  newFd : newdirfd = atFdcwd ∨ 0 ≤ newdirfd
  oldAbsolute : oldDirPath.head? = some '/'
  newAbsolute : newDirPath.head? = some '/'
  oldBounded : oldDirPath.length < pathMax
  newBounded : newDirPath.length < pathMax
  functional : components oldDirPath = components newDirPath → oldDirPath = newDirPath

def freeGetpath (oldDirPath newDirPath : Path) :
    List (PairCall × Name FreeDir × Name FreeDir) → Target FreeDir → Except Errno Path
  | _, .directory dir =>
      if dir = components oldDirPath then .ok oldDirPath
      else if dir = components newDirPath then .ok newDirPath
      else .error enoent
  | _, .file _ => .error enoent

def freeProc (olddirfd : Int) (oldDirPath : Path) (newdirfd : Int) (newDirPath : Path) :
    Proc (List (PairCall × Name FreeDir × Name FreeDir)) FreeDir where
  creds := ⟨0, 0, 0, 0⟩
  cwd := .processWide
    (if olddirfd = atFdcwd then components oldDirPath else components newDirPath)
  fds fd :=
    if (fd : Int) = olddirfd then some ⟨.directory (components oldDirPath), 0, false⟩
    else if (fd : Int) = newdirfd then some ⟨.directory (components newDirPath), 0, false⟩
    else none
  errno := 0
  fs := []
  log := []

def freeOs (olddirfd : Int) (oldDirPath : Path) (newdirfd : Int) (newDirPath : Path) :
    Os (List (PairCall × Name FreeDir × Name FreeDir)) FreeDir :=
  freeTree.os (olddirfd.toNat + newdirfd.toNat + 1) (freeGetpath oldDirPath newDirPath)

section Free

variable {olddirfd newdirfd : Int} {oldDirPath newDirPath oldpath newpath : Path}

theorem freeDirs (paths : DirPaths olddirfd oldDirPath newdirfd newDirPath)
    (different : olddirfd ≠ newdirfd) :
    dirOf (freeProc olddirfd oldDirPath newdirfd newDirPath) olddirfd =
        some (components oldDirPath) ∧
      dirOf (freeProc olddirfd oldDirPath newdirfd newDirPath) newdirfd =
        some (components newDirPath) := by
  constructor
  · by_cases here : olddirfd = atFdcwd
    · simp only [dirOf, here, if_true, freeProc, Cwd.here]
    · have nonneg := paths.oldFd.resolve_left here
      simp only [dirOf, here, if_false, Proc.descriptor, nonneg, if_true, freeProc,
        Int.toNat_of_nonneg nonneg]
  · by_cases here : newdirfd = atFdcwd
    · have there : olddirfd ≠ atFdcwd := fun same => different (same.trans here.symm)
      simp only [dirOf, here, if_true, freeProc, Cwd.here, there, if_false]
    · have nonneg := paths.newFd.resolve_left here
      simp only [dirOf, here, if_false, Proc.descriptor, nonneg, if_true, freeProc,
        Int.toNat_of_nonneg nonneg, different.symm]

theorem freeGetpath_old :
    freeGetpath oldDirPath newDirPath [] (.directory (components oldDirPath)) = .ok oldDirPath :=
  if_pos rfl

theorem freeGetpath_new (paths : DirPaths olddirfd oldDirPath newdirfd newDirPath) :
    freeGetpath oldDirPath newDirPath [] (.directory (components newDirPath)) =
      .ok newDirPath := by
  unfold freeGetpath
  by_cases same : components newDirPath = components oldDirPath
  · simp only [same, if_true, paths.functional same.symm]
  · simp only [same, if_false, if_true]

theorem freeSetting (paths : DirPaths olddirfd oldDirPath newdirfd newDirPath)
    (different : olddirfd ≠ newdirfd) :
    Setting (freeOs olddirfd oldDirPath newdirfd newDirPath) freeTree
      (freeProc olddirfd oldDirPath newdirfd newDirPath) olddirfd (components oldDirPath)
      oldDirPath newdirfd (components newDirPath) newDirPath := by
  obtain ⟨oldDir, newDir⟩ := freeDirs paths different
  constructor
  · exact tree_os_performs _ _ _
  · constructor
    · exact oldDir
    · intro found got
      have known := @freeGetpath_old oldDirPath newDirPath
      exact (Except.ok.inj (known.symm.trans got)).symm
    · exact paths.oldAbsolute
    · exact paths.oldBounded
    · intro reached walked
      exact (Except.ok.inj ((freeWalk _ _).symm.trans walked)).symm
  · constructor
    · exact newDir
    · intro found got
      exact (Except.ok.inj ((freeGetpath_new paths).symm.trans got)).symm
    · exact paths.newAbsolute
    · exact paths.newBounded
    · intro reached walked
      exact (Except.ok.inj ((freeWalk _ _).symm.trans walked)).symm

theorem freePaths_available (paths : DirPaths olddirfd oldDirPath newdirfd newDirPath)
    (different : olddirfd ≠ newdirfd) :
    ¬ PathUnavailable (freeOs olddirfd oldDirPath newdirfd newDirPath) freeTree
        (freeProc olddirfd oldDirPath newdirfd newDirPath) olddirfd ∧
      ¬ PathUnavailable (freeOs olddirfd oldDirPath newdirfd newDirPath) freeTree
        (freeProc olddirfd oldDirPath newdirfd newDirPath) newdirfd := by
  obtain ⟨oldDir, newDir⟩ := freeDirs paths different
  have dot : (freeOs olddirfd oldDirPath newdirfd newDirPath).openDot
      (freeProc olddirfd oldDirPath newdirfd newDirPath) =
        .ok (olddirfd.toNat + newdirfd.toNat + 1) := by
    have free : (freeProc olddirfd oldDirPath newdirfd newDirPath).fds
        (olddirfd.toNat + newdirfd.toNat + 1) = none := by
      simp only [freeProc]
      rw [if_neg (by omega), if_neg (by omega)]
    simp only [freeOs, Tree.os, free, Option.isNone_none, if_true]
  constructor
  · rintro (⟨-, error, refused⟩ | ⟨dir, error, opened, refused⟩ | ⟨_, _, _, _, _, unwalked⟩)
    · rw [dot] at refused
      cases refused
    · rw [oldDir] at opened
      cases opened
      cases refused.symm.trans freeGetpath_old
    · cases unwalked.symm.trans (freeWalk _ _)
  · rintro (⟨-, error, refused⟩ | ⟨dir, error, opened, refused⟩ | ⟨_, _, _, _, _, unwalked⟩)
    · rw [dot] at refused
      cases refused
    · rw [newDir] at opened
      cases opened
      cases refused.symm.trans (freeGetpath_new paths)
    · cases unwalked.symm.trans (freeWalk _ _)

theorem freeName_fullPath (here : FreeDir) (dirPath path : Path)
    (absolute : dirPath.head? = some '/') (bounded : dirPath.length < pathMax) :
    ∃ name, freeTree.name [] ⟨0, 0, 0, 0⟩ here (fullPath dirPath path) = .ok name := by
  have head : (fullPath dirPath path).head? = some '/' :=
    strlcat_head _ _ _ (strlcat_head _ _ _ absolute)
  have nonempty : fullPath dirPath path ≠ [] := by
    intro empty
    rw [empty] at head
    cases head
  have short : (fullPath dirPath path).length < pathMax :=
    strlcat_length _ _ (strlcat_length _ _ bounded)
  unfold Tree.name
  rw [if_neg nonempty, if_neg (by omega)]
  exact freeLocate_ok _ _ _

theorem freeApply_names {pair : PairCall} {start oldStart newStart : FreeDir}
    {oldFull newFull oldpath newpath : Path} {oldName newName : Name FreeDir}
    {before after : Proc (List (PairCall × Name FreeDir × Name FreeDir)) FreeDir} {value : Int}
    (oldOk : freeTree.name [] ⟨0, 0, 0, 0⟩ start oldFull = .ok oldName)
    (newOk : freeTree.name [] ⟨0, 0, 0, 0⟩ start newFull = .ok newName)
    (made : Outcome before after value
      (freeTree.apply pair [] ⟨0, 0, 0, 0⟩ start oldFull start newFull))
    (meant : Outcome before after value
      (freeTree.apply pair [] ⟨0, 0, 0, 0⟩ oldStart oldpath newStart newpath)) :
    freeTree.name [] ⟨0, 0, 0, 0⟩ oldStart oldpath = .ok oldName ∧
      freeTree.name [] ⟨0, 0, 0, 0⟩ newStart newpath = .ok newName := by
  rw [Tree.apply, oldOk, newOk] at made
  obtain ⟨success, kept⟩ := made
  unfold Tree.apply at meant
  cases old : freeTree.name [] ⟨0, 0, 0, 0⟩ oldStart oldpath with
  | error error =>
      rw [old] at meant
      have failed := meant.1.symm.trans success
      cases failed
  | ok oldMeant =>
      cases new : freeTree.name [] ⟨0, 0, 0, 0⟩ newStart newpath with
      | error error =>
          rw [old, new] at meant
          have failed := meant.1.symm.trans success
          cases failed
      | ok newMeant =>
          rw [old, new] at meant
          have same := (List.cons.inj (meant.2.symm.trans kept)).1
          obtain ⟨-, names⟩ := Prod.mk.inj same
          obtain ⟨oldSame, newSame⟩ := Prod.mk.inj names
          exact ⟨congrArg _ oldSame, congrArg _ newSame⟩

theorem freeName_kept (here : FreeDir) (dirPath path : Path) (name : Name FreeDir)
    (absolute : dirPath.head? = some '/') (relative : path.head? ≠ some '/')
    (full : freeTree.name [] ⟨0, 0, 0, 0⟩ here (fullPath dirPath path) = .ok name)
    (meant : freeTree.name [] ⟨0, 0, 0, 0⟩ (components dirPath) path = .ok name) :
    NameKept dirPath path := by
  have head : (fullPath dirPath path).head? = some '/' :=
    strlcat_head _ _ _ (strlcat_head _ _ _ absolute)
  unfold Tree.name at full meant
  by_cases empty : path = []
  · rw [if_pos empty] at meant
    cases meant
  · rw [if_neg empty] at meant
    split at full
    next => cases full
    next =>
      split at full
      next => cases full
      next =>
        split at meant
        next => cases meant
        next =>
          obtain ⟨parts, slash⟩ := freeLocate_inj (components dirPath) _ (components path) _ _
            (components_ne_nil path empty relative) (full.trans meant.symm)
          exact ⟨empty, parts, slash⟩

theorem freeTwoPath (paths : DirPaths olddirfd oldDirPath newdirfd newDirPath)
    (different : olddirfd ≠ newdirfd) (oldRelative : oldpath.head? ≠ some '/')
    (newRelative : newpath.head? ≠ some '/') (pair : PairCall) :
    twoPathAtcall (freeOs olddirfd oldDirPath newdirfd newDirPath)
        (freeProc olddirfd oldDirPath newdirfd newDirPath) olddirfd oldpath newdirfd newpath
        pair.syscall =
      call (freeOs olddirfd oldDirPath newdirfd newDirPath)
        (pair.syscall (fullPath oldDirPath oldpath) (fullPath newDirPath newpath))
        (freeProc olddirfd oldDirPath newdirfd newDirPath) := by
  obtain ⟨-, old, new⟩ := freeSetting paths different
  obtain ⟨oldAvailable, newAvailable⟩ := freePaths_available paths different
  obtain ⟨oldFound, oldGetpath, oldFull⟩ :=
    (fullpathat_cases _ freeTree old.opened oldpath).resolve_left fun failed => oldAvailable failed.1
  obtain ⟨newFound, newGetpath, newFull⟩ :=
    (fullpathat_cases _ freeTree new.opened newpath).resolve_left fun failed => newAvailable failed.1
  have together : ¬ (newpath.head? = some '/' ∨ olddirfd = newdirfd) := by
    rintro (absolute | same)
    · exact newRelative absolute
    · exact different same
  unfold twoPathAtcall
  rw [if_neg oldRelative, if_neg together, oldFull, old.getpath oldFound oldGetpath]
  simp only [newFull]
  rw [new.getpath newFound newGetpath]

theorem free_namesKept (paths : DirPaths olddirfd oldDirPath newdirfd newDirPath)
    (different : olddirfd ≠ newdirfd) (oldRelative : oldpath.head? ≠ some '/')
    (newRelative : newpath.head? ≠ some '/') (pair : PairCall)
    (acts : ActsOnNames (freeOs olddirfd oldDirPath newdirfd newDirPath) freeTree pair
      (freeProc olddirfd oldDirPath newdirfd newDirPath) olddirfd oldpath newdirfd newpath
      (components oldDirPath) (components newDirPath)
      (twoPathAtcall (freeOs olddirfd oldDirPath newdirfd newDirPath)
        (freeProc olddirfd oldDirPath newdirfd newDirPath) olddirfd oldpath newdirfd newpath
        pair.syscall)) :
    NameKept oldDirPath oldpath ∧ NameKept newDirPath newpath := by
  obtain ⟨oldAvailable, newAvailable⟩ := freePaths_available paths different
  have together : ¬ (newpath.head? = some '/' ∨ olddirfd = newdirfd) := by
    rintro (absolute | same)
    · exact newRelative absolute
    · exact different same
  rcases acts with outcome | ⟨failed, -, -⟩
  · have made := call_outcome (freeSetting paths different).performs pair
      (freeProc olddirfd oldDirPath newdirfd newDirPath) (fullPath oldDirPath oldpath)
      (fullPath newDirPath newpath)
    rw [freeTwoPath paths different oldRelative newRelative pair] at outcome
    obtain ⟨oldName, oldFull⟩ := freeName_fullPath
      (freeProc olddirfd oldDirPath newdirfd newDirPath).cwd.here oldDirPath oldpath
      paths.oldAbsolute paths.oldBounded
    obtain ⟨newName, newFull⟩ := freeName_fullPath
      (freeProc olddirfd oldDirPath newdirfd newDirPath).cwd.here newDirPath newpath
      paths.newAbsolute paths.newBounded
    obtain ⟨oldMeant, newMeant⟩ := freeApply_names oldFull newFull made outcome
    exact ⟨freeName_kept _ _ _ _ paths.oldAbsolute oldRelative oldFull oldMeant,
      freeName_kept _ _ _ _ paths.newAbsolute newRelative newFull newMeant⟩
  · unfold SetupFails twoPathEntry at failed
    rw [if_neg oldRelative, if_neg together] at failed
    rcases failed with unavailable | unavailable
    · exact absurd unavailable oldAvailable
    · exact absurd unavailable newAvailable

end Free

def PairCall.function (os : Os FS Dir) (proc : Proc FS Dir) (olddirfd : Int) (oldpath : Path)
    (newdirfd : Int) (newpath : Path) : PairCall → Int × Proc FS Dir
  | .rename => renameat os proc olddirfd oldpath newdirfd newpath
  | .link => linkat os proc olddirfd oldpath newdirfd newpath 0

theorem function_twoPathAtcall (os : Os FS Dir) (proc : Proc FS Dir) (olddirfd : Int)
    (oldpath : Path) (newdirfd : Int) (newpath : Path) (pair : PairCall) :
    pair.function os proc olddirfd oldpath newdirfd newpath =
      twoPathAtcall os proc olddirfd oldpath newdirfd newpath pair.syscall := by
  cases pair with
  | rename => rfl
  | link =>
      rw [PairCall.function, linkat, if_neg (not_not.mpr rfl)]
      rfl

/-- In every tree the functions act on the names that the two paths give exactly when they do not
go by full paths or both names survive in the buffers. -/
theorem twoPaths_actOnNames_iff (olddirfd newdirfd : Int)
    (oldDirPath newDirPath oldpath newpath : Path)
    (paths : DirPaths olddirfd oldDirPath newdirfd newDirPath)
    (oldShort : oldpath.length < pathMax) (newShort : newpath.length < pathMax) :
    (∀ pair : PairCall,
      (∀ (FS Dir : Type) (os : Os FS Dir) (tree : Tree FS Dir) (proc : Proc FS Dir)
          (oldDir newDir : Dir),
        Setting os tree proc olddirfd oldDir oldDirPath newdirfd newDir newDirPath →
          ActsOnNames os tree pair proc olddirfd oldpath newdirfd newpath oldDir newDir
            (pair.function os proc olddirfd oldpath newdirfd newpath)) ↔
        NamesKept olddirfd oldDirPath oldpath newdirfd newDirPath newpath) ∧
      ∀ (FS Dir : Type) (os : Os FS Dir) (proc : Proc FS Dir) (flags : UInt32), flags ≠ 0 →
        (linkat os proc olddirfd oldpath newdirfd newpath flags).1 = -1 ∧
          (linkat os proc olddirfd oldpath newdirfd newpath flags).2.fs = proc.fs := by
  constructor
  · intro pair
    constructor
    · intro acts
      by_cases oldAbsolute : oldpath.head? = some '/'
      · exact Or.inl oldAbsolute
      · by_cases newAbsolute : newpath.head? = some '/'
        · exact Or.inr (Or.inl newAbsolute)
        · by_cases same : olddirfd = newdirfd
          · exact Or.inr (Or.inr (Or.inl same))
          · have free := acts _ _ _ _ _ _ _ (freeSetting paths same)
            rw [function_twoPathAtcall] at free
            exact Or.inr (Or.inr (Or.inr
              (free_namesKept paths same oldAbsolute newAbsolute pair free)))
    · intro kept FS Dir os tree proc oldDir newDir setting
      rw [function_twoPathAtcall]
      exact twoPathAtcall_actsOnNames setting oldShort newShort pair kept
  · intro FS Dir os proc flags flagged
    rw [linkat, if_pos flagged]
    exact ⟨rfl, rfl⟩

/-! ## A small tree -/

abbrev Entries := List (Nat × Component × Target Nat)

def Entries.find (entries : Entries) (dir : Nat) (name : Component) :
    Except Errno (Target Nat) :=
  match entries.find? fun entry => entry.1 = dir ∧ entry.2.1 = name with
  | some entry => .ok entry.2.2
  | none => .error enoent

def Entries.without (entries : Entries) (dir : Nat) (name : Component) : Entries :=
  entries.filter fun entry => ¬ (entry.1 = dir ∧ entry.2.1 = name)

def entriesTree : Tree Entries Nat where
  root _ := 0
  enter entries _ dir part :=
    match entries.find dir part with
    | .ok (.directory next) => .ok next
    | .ok (.file _) => .error enotdir
    | .error error => .error error
  perform pair entries _ old new :=
    match old.last, new.last with
    | some oldName, some newName =>
        (entries.find old.dir oldName).bind fun target =>
          match pair, target, entries.find new.dir newName with
          | .rename, _, _ =>
              .ok ((new.dir, newName, target) ::
                (entries.without old.dir oldName).without new.dir newName)
          | .link, .directory _, _ => .error 1
          | .link, .file _, .ok _ => .error 17
          | .link, .file _, .error _ => .ok ((new.dir, newName, target) :: entries)
    | _, _ => .error einval

def entriesGetpath : Entries → Target Nat → Except Errno Path
  | _, .directory 0 => .ok ['/']
  | _, .directory 1 => .ok ['/', 'a']
  | _, .directory 2 => .ok ['/', 'b']
  | _, _ => .error enoent

def entriesOs : Os Entries Nat := entriesTree.os 5 entriesGetpath

def entriesProc : Proc Entries Nat where
  creds := ⟨501, 501, 20, 20⟩
  cwd := .perThread 0 none
  fds fd :=
    match fd with
    | 3 => some ⟨.directory 1, 0, false⟩
    | 4 => some ⟨.directory 2, 0, false⟩
    | _ => none
  errno := 0
  fs := [(0, ['a'], .directory 1), (0, ['b'], .directory 2), (1, ['f'], .file 7)]
  log := []

theorem entriesSetting :
    Setting entriesOs entriesTree entriesProc 3 1 ['/', 'a'] 4 2 ['/', 'b'] := by
  constructor
  · exact tree_os_performs _ _ _
  · constructor
    · rfl
    · intro found got
      exact (Except.ok.inj got).symm
    · rfl
    · decide
    · intro reached walked
      exact (Except.ok.inj walked).symm
  · constructor
    · rfl
    · intro found got
      exact (Except.ok.inj got).symm
    · rfl
    · decide
    · intro reached walked
      exact (Except.ok.inj walked).symm

theorem entriesPaths : DirPaths 3 ['/', 'a'] 4 ['/', 'b'] := by
  constructor
  · exact Or.inr (by decide)
  · exact Or.inr (by decide)
  · rfl
  · rfl
  · decide
  · decide
  · decide

theorem twoPaths_actOnNames_short :
    ActsOnNames entriesOs entriesTree .rename entriesProc 3 ['f'] 4 ['g'] 1 2
        (renameat entriesOs entriesProc 3 ['f'] 4 ['g']) ∧
      (renameat entriesOs entriesProc 3 ['f'] 4 ['g']).1 = 0 ∧
      (renameat entriesOs entriesProc 3 ['f'] 4 ['g']).2.fs =
        [(2, ['g'], .file 7), (0, ['a'], .directory 1), (0, ['b'], .directory 2)] :=
  ⟨((twoPaths_actOnNames_iff 3 4 ['/', 'a'] ['/', 'b'] ['f'] ['g'] entriesPaths (by decide)
      (by decide)).1 .rename).mpr
    (Or.inr (Or.inr (Or.inr ⟨nameKept_of_fits _ _ (by decide) (by decide),
      nameKept_of_fits _ _ (by decide) (by decide)⟩))) _ _ _ _ _ _ _ entriesSetting, rfl, rfl⟩

/-- An empty old path names nothing, but as the full path `/a/` it moves the directory. -/
theorem renameat_emptyPath_movesDirectory :
    Setting entriesOs entriesTree entriesProc 3 1 ['/', 'a'] 4 2 ['/', 'b'] ∧
      entriesTree.name entriesProc.fs entriesProc.creds 1 [] = .error enoent ∧
      (renameat entriesOs entriesProc 3 [] 4 ['g']).1 = 0 ∧
      (renameat entriesOs entriesProc 3 [] 4 ['g']).2.fs =
        [(2, ['g'], .directory 1), (0, ['b'], .directory 2), (1, ['f'], .file 7)] ∧
      ¬ ActsOnNames entriesOs entriesTree .rename entriesProc 3 [] 4 ['g'] 1 2
        (renameat entriesOs entriesProc 3 [] 4 ['g']) := by
  have success : (renameat entriesOs entriesProc 3 [] 4 ['g']).1 = 0 := rfl
  refine ⟨entriesSetting, rfl, success, rfl, ?_⟩
  rintro (⟨failed, -⟩ | ⟨-, failed, -⟩)
  · rw [success] at failed
    cases failed
  · rw [success] at failed
    cases failed

end LegacySupport.Atcalls
