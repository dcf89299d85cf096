import LegacySupport.AtcallsCore

/-!
What the macro of the `*at` functions leaves behind. It undoes its own changes except where the
current directory cannot be opened: then it has nothing to go back to. And where the directory
given cannot be entered, it returns from the enclosing function at once.
-/

namespace LegacySupport.Atcalls

variable {FS Dir : Type}

/-! ## Entering a directory -/

def Cwd.enter (cwd : Cwd Dir) (dir : Dir) : Cwd Dir :=
  match cwd with
  | .perThread process _ => .perThread process (some dir)
  | .processWide _ => .processWide dir

def Cwd.leave : Cwd Dir → Cwd Dir
  | .perThread process _ => .perThread process none
  | .processWide process => .processWide process

theorem mplsBestFchdir_enter (os : Os FS Dir) (proc : Proc FS Dir) {fd : Int} (given : fd ≠ -1) :
    mplsBestFchdir os proc fd =
      match chdirTarget os proc fd with
      | .error error => proc.fail error
      | .ok dir => (0, { proc with cwd := proc.cwd.enter dir }) := by
  unfold mplsBestFchdir
  split
  next process thread cwd =>
    cases found : chdirTarget os proc fd <;> simp [pthreadFchdirNp, given, cwd, found, Cwd.enter]
  next process cwd =>
    cases found : chdirTarget os proc fd <;> simp [fchdir, given, cwd, found, Cwd.enter]

@[simp] theorem enter_enter (cwd : Cwd Dir) (first second : Dir) :
    (cwd.enter first).enter second = cwd.enter second := by
  cases cwd <;> rfl

@[simp] theorem leave_enter (cwd : Cwd Dir) (dir : Dir) : cwd.leave.enter dir = cwd.enter dir := by
  cases cwd <;> rfl

theorem mplsBestFchdir_cases (os : Os FS Dir) (proc : Proc FS Dir) (fd : Int) :
    (∃ error, mplsBestFchdir os proc fd = proc.fail error) ∨
      ∃ cwd, mplsBestFchdir os proc fd = (0, { proc with cwd := cwd }) ∧
        ((fd ≠ -1 ∧ ∃ dir, chdirTarget os proc fd = .ok dir ∧ cwd = proc.cwd.enter dir) ∨
          fd = -1 ∧ cwd = proc.cwd.leave) := by
  by_cases given : fd = -1
  · subst given
    unfold mplsBestFchdir
    split
    next process thread cwd =>
      simp only [pthreadFchdirNp, if_true]
      cases thread with
      | none => exact Or.inl ⟨_, rfl⟩
      | some dir => exact Or.inr ⟨_, rfl, Or.inr ⟨trivial, by rw [cwd]; rfl⟩⟩
    next process cwd => exact Or.inr ⟨proc.cwd, rfl, Or.inr ⟨rfl, by rw [cwd]; rfl⟩⟩
  · rw [mplsBestFchdir_enter os proc given]
    cases chdirTarget os proc fd with
    | error error => exact Or.inl ⟨error, rfl⟩
    | ok dir => exact Or.inr ⟨_, rfl, Or.inl ⟨given, dir, rfl, rfl⟩⟩

/-! ## Saving and restoring -/

def dotDescriptor (dir : Dir) : Descriptor Dir := ⟨.directory dir, 0, false⟩

theorem update_fresh {fds : Nat → Option (Descriptor Dir)} {fd : Nat} (fresh : fds fd = none)
    (descriptor : Option (Descriptor Dir)) :
    Function.update (Function.update fds fd descriptor) fd none = fds := by
  rw [Function.update_idem, Function.update_eq_self_iff]
  exact fresh.symm

theorem openDot_ok {os : Os FS Dir} {proc : Proc FS Dir} {fd : Nat}
    (opened : os.openDot proc = .ok fd) :
    openDot os proc = ((fd : Int), { proc with
      fds := Function.update proc.fds fd (some (dotDescriptor proc.cwd.here)) }) := by
  simp [openDot, opened, dotDescriptor]

theorem openDot_error {os : Os FS Dir} {proc : Proc FS Dir} {error : Errno}
    (refused : os.openDot proc = .error error) : openDot os proc = proc.fail error := by
  simp [openDot, refused]

theorem saveCwd_follows (os : Os FS Dir) {proc : Proc FS Dir} {process : Dir}
    (follows : proc.cwd = .perThread process none) :
    saveCwd os proc = (-1, { proc with errno := os.noOwnCwd }) := by
  cases opened : os.openDot proc with
  | error error =>
      simp [saveCwd, openDot_error opened, Proc.fail, mplsBestFchdir, follows, pthreadFchdirNp]
  | ok fd =>
      have fresh := os.openDot_fresh proc fd opened
      simp [saveCwd, openDot_ok opened, Proc.fail, mplsBestFchdir, follows, pthreadFchdirNp, close,
        Proc.descriptor, update_fresh fresh]

theorem saveCwd_own {os : Os FS Dir} {proc : Proc FS Dir} {process own : Dir} {fd : Nat}
    (cwd : proc.cwd = .perThread process (some own)) (opened : os.openDot proc = .ok fd) :
    saveCwd os proc = ((fd : Int), { proc with
      cwd := .perThread process none
      fds := Function.update proc.fds fd (some (dotDescriptor own)) }) := by
  simp [saveCwd, openDot_ok opened, mplsBestFchdir, cwd, pthreadFchdirNp, Cwd.here]

/-- The probe drops the thread's own directory, which is lost where it was not opened before. -/
theorem saveCwd_own_refused {os : Os FS Dir} {proc : Proc FS Dir} {process own : Dir}
    {error : Errno} (cwd : proc.cwd = .perThread process (some own))
    (refused : os.openDot proc = .error error) :
    saveCwd os proc = (-1, { proc with cwd := .perThread process none, errno := error }) := by
  simp [saveCwd, openDot_error refused, Proc.fail, mplsBestFchdir, cwd, pthreadFchdirNp]

theorem saveCwd_processWide {os : Os FS Dir} {proc : Proc FS Dir} {process : Dir} {fd : Nat}
    (cwd : proc.cwd = .processWide process) (opened : os.openDot proc = .ok fd) :
    saveCwd os proc = ((fd : Int), { proc with
      fds := Function.update proc.fds fd (some (dotDescriptor process)) }) := by
  simp [saveCwd, openDot_ok opened, mplsBestFchdir, cwd, Cwd.here]

theorem saveCwd_processWide_refused {os : Os FS Dir} {proc : Proc FS Dir} {process : Dir}
    {error : Errno} (cwd : proc.cwd = .processWide process)
    (refused : os.openDot proc = .error error) :
    saveCwd os proc = (-1, { proc with errno := error }) := by
  simp [saveCwd, openDot_error refused, Proc.fail, mplsBestFchdir, cwd]

theorem restoreCwd_none (os : Os FS Dir) (proc : Proc FS Dir) :
    restoreCwd os (-1) proc = { proc with cwd := proc.cwd.leave } := by
  cases cwd : proc.cwd with
  | perThread process thread =>
      cases thread with
      | none =>
          simp [restoreCwd, protectErrno, mplsBestFchdir, cwd, pthreadFchdirNp, Proc.fail, Cwd.leave]
      | some own =>
          simp [restoreCwd, protectErrno, mplsBestFchdir, cwd, pthreadFchdirNp, Cwd.leave]
  | processWide process =>
      simp [restoreCwd, protectErrno, mplsBestFchdir, cwd, Cwd.leave]

theorem restoreCwd_descriptor {os : Os FS Dir} {proc : Proc FS Dir} {fd : Nat} {dir : Dir}
    (held : proc.fds fd = some (dotDescriptor dir))
    (reachable : os.chdirError proc.fs proc.creds dir = none) :
    restoreCwd os fd proc =
      { proc with cwd := proc.cwd.enter dir, fds := Function.update proc.fds fd none } := by
  have given : (fd : Int) ≠ -1 := by omega
  have target : chdirTarget os proc fd = .ok dir := by
    simp [chdirTarget, Proc.descriptor, held, dotDescriptor, reachable]
  simp [restoreCwd, protectErrno, mplsBestFchdir_enter os proc given, target, given, close,
    Proc.descriptor, held]

/-! ## The files on the way to a call -/

theorem mplsBestFchdir_fs (os : Os FS Dir) (proc : Proc FS Dir) (fd : Int) :
    (mplsBestFchdir os proc fd).2.fs = proc.fs ∧ (mplsBestFchdir os proc fd).2.fds = proc.fds := by
  rcases mplsBestFchdir_cases os proc fd with ⟨error, failed⟩ | ⟨cwd, entered, -⟩
  · rw [failed]
    exact ⟨rfl, rfl⟩
  · rw [entered]
    exact ⟨rfl, rfl⟩

theorem close_fs (proc : Proc FS Dir) (fd : Int) : (close proc fd).2.fs = proc.fs := by
  unfold close
  split
  · rfl
  · rfl

theorem openDot_fs (os : Os FS Dir) (proc : Proc FS Dir) : (openDot os proc).2.fs = proc.fs := by
  unfold openDot
  split
  · rfl
  · rfl

theorem saveCwd_fs (os : Os FS Dir) (proc : Proc FS Dir) : (saveCwd os proc).2.fs = proc.fs := by
  have opened := openDot_fs os proc
  have probed := (mplsBestFchdir_fs os (openDot os proc).2 (-1)).1
  unfold saveCwd
  simp only
  split
  · rw [close_fs, probed, opened]
  · rw [probed, opened]

theorem restoreCwd_fs (os : Os FS Dir) (oldCwd : Int) (proc : Proc FS Dir) :
    (restoreCwd os oldCwd proc).fs = proc.fs := by
  have entered := (mplsBestFchdir_fs os proc oldCwd).1
  unfold restoreCwd protectErrno
  simp only
  split
  · rw [close_fs]
    exact entered
  · exact entered

/-! ## The wrapped call -/

theorem call_cwd (os : Os FS Dir) (syscall : Syscall) (proc : Proc FS Dir) :
    (call os syscall proc).2.cwd = proc.cwd := by
  unfold call
  split <;> rfl

theorem call_creds (os : Os FS Dir) (syscall : Syscall) (proc : Proc FS Dir) :
    (call os syscall proc).2.creds = proc.creds := by
  unfold call
  split <;> rfl

theorem call_held (os : Os FS Dir) (syscall : Syscall) {proc : Proc FS Dir} {fd : Nat}
    {descriptor : Descriptor Dir} (held : proc.fds fd = some descriptor) :
    (call os syscall proc).2.fds fd = some descriptor := by
  unfold call
  split
  next => exact held
  next value succeeded =>
    simp only
    split
    next opens =>
      have fresh := os.exec_fresh syscall proc value opens succeeded
      have different : fd ≠ value := by
        rintro rfl
        rw [fresh] at held
        cases held
      rw [Function.update_of_ne different]
      exact held
    next => exact held

theorem call_fds (os : Os FS Dir) (syscall : Syscall) (proc : Proc FS Dir) (fd : Nat) :
    ((call os syscall proc).2.fds fd).isSome ↔
      (proc.fds fd).isSome ∨ syscall.opens = true ∧ (fd : Int) = (call os syscall proc).1 := by
  unfold call
  split
  next error => simp
  next value succeeded =>
    simp only
    split
    next opens =>
      by_cases same : fd = value
      · subst same
        simp [opens]
      · have different : (fd : Int) ≠ value := by omega
        simp [Function.update_of_ne same, opens, different]
    next keeps => simp [keeps]

theorem call_value_fresh {os : Os FS Dir} {syscall : Syscall} {proc : Proc FS Dir} {fd : Nat}
    (opens : syscall.opens = true) (returned : (fd : Int) = (call os syscall proc).1) :
    proc.fds fd = none := by
  unfold call at returned
  split at returned
  next error => omega
  next value succeeded =>
    have same : fd = value := by
      simp only at returned
      omega
    rw [same]
    exact os.exec_fresh syscall proc value opens succeeded

theorem call_errno {os : Os FS Dir} {syscall : Syscall} {proc : Proc FS Dir}
    (failed : (call os syscall proc).1 = -1) :
    ∃ error, (call os syscall proc).2.errno = error ∧
      (call os syscall proc).2.log = proc.log ++ [.called syscall proc.creds (some error)] := by
  unfold call at failed ⊢
  split at failed
  next error refused => exact ⟨error, rfl, rfl⟩
  next value succeeded =>
    simp only at failed
    omega

theorem call_log (os : Os FS Dir) (syscall : Syscall) (proc : Proc FS Dir) :
    ∃ error, (call os syscall proc).2.log = proc.log ++ [.called syscall proc.creds error] := by
  unfold call
  split
  next error refused => exact ⟨some error, rfl⟩
  next => exact ⟨none, rfl⟩

/-! ## The macro -/

theorem atcall_cases (os : Os FS Dir) (proc : Proc FS Dir) (fd : Int) (p : Path) (onerr : Int)
    (syscall : Syscall) :
    (Direct fd p ∧ atcall os proc fd p onerr (call os syscall) =
        (.yields (call os syscall proc).1, (call os syscall proc).2)) ∨
      (¬ Direct fd p ∧ ∃ error,
        mplsBestFchdir os (saveCwd os proc).2 fd = (saveCwd os proc).2.fail error ∧
        atcall os proc fd p onerr (call os syscall) =
          (.exits onerr, restoreCwd os (saveCwd os proc).1
            { (saveCwd os proc).2 with
              errno := error
              log := (saveCwd os proc).2.log ++ [.notEntered fd error] })) ∨
      (¬ Direct fd p ∧ ∃ cwd,
        mplsBestFchdir os (saveCwd os proc).2 fd = (0, { (saveCwd os proc).2 with cwd := cwd }) ∧
        ((fd ≠ -1 ∧ ∃ dir, chdirTarget os (saveCwd os proc).2 fd = .ok dir ∧
            cwd = (saveCwd os proc).2.cwd.enter dir) ∨
          fd = -1 ∧ cwd = (saveCwd os proc).2.cwd.leave) ∧
        atcall os proc fd p onerr (call os syscall) =
          (.yields (call os syscall { (saveCwd os proc).2 with cwd := cwd }).1,
            restoreCwd os (saveCwd os proc).1
              (call os syscall { (saveCwd os proc).2 with cwd := cwd }).2)) := by
  by_cases direct : Direct fd p
  · exact Or.inl ⟨direct, by simp [atcall, direct]⟩
  · right
    rcases mplsBestFchdir_cases os (saveCwd os proc).2 fd with ⟨error, failed⟩ | ⟨cwd, entered, moved⟩
    · exact Or.inl ⟨direct, error, failed, by simp [atcall, direct, failed, Proc.fail]⟩
    · exact Or.inr ⟨direct, cwd, entered, moved, by simp [atcall, direct, entered]⟩

/-- The current directory at entry can be entered again, whatever happens to the files and to
the credentials on the way. -/
def Reachable (os : Os FS Dir) (proc : Proc FS Dir) : Prop :=
  ∀ fs creds, os.chdirError fs creds proc.cwd.here = none

/-- The way back is known: there is a descriptor of the current directory, or nothing to go
back to. -/
def Recoverable (os : Os FS Dir) (proc : Proc FS Dir) (fd : Int) : Prop :=
  (∃ oldCwd, os.openDot proc = .ok oldCwd) ∨
    match proc.cwd with
    | .perThread _ thread => thread = none
    | .processWide here => fd = -1 ∨ ∀ dir, chdirTarget os proc fd = .ok dir → dir = here

structure DescriptorsKept (opens : Bool) (before after : Proc FS Dir) (value : Int) : Prop where
  kept : ∀ fd : Nat, (after.fds fd).isSome ↔
    (before.fds fd).isSome ∨ opens = true ∧ (fd : Int) = value
  fresh : ∀ fd : Nat, opens = true → (fd : Int) = value → before.fds fd = none

theorem descriptorsKept_failure {before after : Proc FS Dir} (opens : Bool)
    (same : after.fds = before.fds) : DescriptorsKept opens before after (-1) where
  kept fd := by
    rw [same]
    exact ⟨Or.inl, fun either => either.resolve_right fun opened => by omega⟩
  fresh fd _ returned := by omega

theorem call_descriptorsKept (os : Os FS Dir) (syscall : Syscall) (proc : Proc FS Dir) :
    DescriptorsKept syscall.opens proc (call os syscall proc).2 (call os syscall proc).1 where
  kept := call_fds os syscall proc
  fresh _ := call_value_fresh

theorem atcall_kept {os : Os FS Dir} {proc : Proc FS Dir} {fd : Int} {p : Path} {oldCwd : Nat}
    {cwd : Cwd Dir} (relative : ¬ Direct fd p) (reachable : Reachable os proc)
    (fresh : proc.fds oldCwd = none)
    (saved : saveCwd os proc = ((oldCwd : Int), { proc with
      cwd := cwd
      fds := Function.update proc.fds oldCwd (some (dotDescriptor proc.cwd.here)) }))
    (back : cwd.enter proc.cwd.here = proc.cwd) (syscall : Syscall) :
    (atcall os proc fd p (-1) (call os syscall)).2.cwd = proc.cwd ∧
      DescriptorsKept syscall.opens proc (atcall os proc fd p (-1) (call os syscall)).2
        (atcall os proc fd p (-1) (call os syscall)).1.value := by
  have held : Function.update proc.fds oldCwd (some (dotDescriptor proc.cwd.here)) oldCwd =
      some (dotDescriptor proc.cwd.here) := Function.update_self _ _ _
  rcases atcall_cases os proc fd p (-1) syscall with
    ⟨direct, _⟩ | ⟨_, error, _, result⟩ | ⟨_, inside, _, moved, result⟩
  · exact absurd direct relative
  · rw [result, saved, restoreCwd_descriptor held (reachable _ _)]
    exact ⟨back, descriptorsKept_failure _ (update_fresh fresh _)⟩
  · rw [saved] at moved result
    rw [result, restoreCwd_descriptor (call_held os syscall held) (reachable _ _)]
    constructor
    · simp only [call_cwd]
      rcases moved with ⟨_, dir, _, entered⟩ | ⟨_, left⟩
      · rw [entered, enter_enter]
        exact back
      · rw [left, leave_enter]
        exact back
    · have closed : ∀ descriptor : Nat, syscall.opens = true →
          (descriptor : Int) = (call os syscall { proc with
            cwd := inside
            fds := Function.update proc.fds oldCwd (some (dotDescriptor proc.cwd.here)) }).1 →
          descriptor ≠ oldCwd := by
        rintro descriptor opens returned rfl
        have closed := held.symm.trans (call_value_fresh opens returned)
        cases closed
      refine ⟨fun descriptor => ?_, fun descriptor opens returned => ?_⟩
      · simp only [Flow.value]
        by_cases same : descriptor = oldCwd
        · rw [same, Function.update_self, fresh]
          simp only [Option.isSome_none, Bool.false_eq_true, false_or, false_iff]
          exact fun opened => closed oldCwd opened.1 opened.2 rfl
        · rw [Function.update_of_ne same, call_fds]
          simp only [Function.update_of_ne same]
      · have different := closed descriptor opens returned
        have new := call_value_fresh opens returned
        simp only [Function.update_of_ne different] at new
        exact new

theorem atcall_unkept {os : Os FS Dir} {proc : Proc FS Dir} {fd : Int} {p : Path}
    {cwd : Cwd Dir} {errno : Errno} (relative : ¬ Direct fd p)
    (saved : saveCwd os proc = (-1, { proc with cwd := cwd, errno := errno }))
    (syscall : Syscall) :
    (atcall os proc fd p (-1) (call os syscall)).2.cwd =
        (if fd = -1 then cwd
          else match chdirTarget os proc fd with
            | .error _ => cwd
            | .ok dir => cwd.enter dir).leave ∧
      DescriptorsKept syscall.opens proc (atcall os proc fd p (-1) (call os syscall)).2
        (atcall os proc fd p (-1) (call os syscall)).1.value := by
  have target : chdirTarget os { proc with cwd := cwd, errno := errno } fd =
      chdirTarget os proc fd := rfl
  rcases atcall_cases os proc fd p (-1) syscall with
    ⟨direct, _⟩ | ⟨_, error, failed, result⟩ | ⟨_, inside, _, moved, result⟩
  · exact absurd direct relative
  · rw [saved] at failed result
    rw [result, restoreCwd_none]
    refine ⟨?_, descriptorsKept_failure _ rfl⟩
    · split
      next => rfl
      next given =>
        rw [mplsBestFchdir_enter os _ given, target] at failed
        cases found : chdirTarget os proc fd with
        | error error => rfl
        | ok dir =>
            rw [found] at failed
            have code := congrArg Prod.fst failed
            simp [Proc.fail] at code
  · rw [saved] at moved result
    rw [result, restoreCwd_none]
    refine ⟨?_, (call_fds os syscall _), fun _ => call_value_fresh⟩
    · simp only [call_cwd]
      rw [target] at moved
      rcases moved with ⟨given, dir, found, entered⟩ | ⟨dropped, left⟩
      · rw [if_neg given, found, entered]
      · rw [if_pos dropped, left]
        cases cwd <;> rfl

/-- The macro restores the working directory exactly when it knows the way back, and it never
leaves a descriptor of its own open. -/
theorem atcall_restores_iff {os : Os FS Dir} {proc : Proc FS Dir} {fd : Int} {p : Path}
    (relative : ¬ Direct fd p) (reachable : Reachable os proc) (syscall : Syscall) :
    ((atcall os proc fd p (-1) (call os syscall)).2.cwd = proc.cwd ↔ Recoverable os proc fd) ∧
      DescriptorsKept syscall.opens proc (atcall os proc fd p (-1) (call os syscall)).2
        (atcall os proc fd p (-1) (call os syscall)).1.value := by
  cases cwd : proc.cwd with
  | perThread process thread =>
      cases thread with
      | none =>
          obtain ⟨restored, kept⟩ := atcall_unkept relative (saveCwd_follows os cwd) syscall
          refine ⟨iff_of_true ?_ (Or.inr (by rw [cwd])), kept⟩
          rw [restored, cwd]
          split
          · rfl
          · split <;> rfl
      | some own =>
          cases opened : os.openDot proc with
          | ok oldCwd =>
              have here : proc.cwd.here = own := by rw [cwd]; rfl
              obtain ⟨restored, kept⟩ := atcall_kept relative reachable
                (os.openDot_fresh proc oldCwd opened)
                (by rw [saveCwd_own cwd opened, here]) (by rw [here, cwd]; rfl) syscall
              exact ⟨iff_of_true (restored.trans cwd) (Or.inl ⟨oldCwd, opened⟩), kept⟩
          | error error =>
              obtain ⟨restored, kept⟩ :=
                atcall_unkept relative (saveCwd_own_refused cwd opened) syscall
              refine ⟨iff_of_false ?_ ?_, kept⟩
              · rw [restored]
                split
                · simp [Cwd.leave]
                · split <;> simp [Cwd.leave, Cwd.enter]
              · rintro (⟨oldCwd, succeeded⟩ | follows)
                · rw [opened] at succeeded
                  cases succeeded
                · rw [cwd] at follows
                  cases follows
  | processWide process =>
      cases opened : os.openDot proc with
      | ok oldCwd =>
          have here : proc.cwd.here = process := by rw [cwd]; rfl
          have saved := saveCwd_processWide cwd opened
          rw [← here] at saved
          obtain ⟨restored, kept⟩ := atcall_kept relative reachable
            (os.openDot_fresh proc oldCwd opened) saved (by rw [here, cwd]; rfl) syscall
          exact ⟨iff_of_true (restored.trans cwd) (Or.inl ⟨oldCwd, opened⟩), kept⟩
      | error error =>
          obtain ⟨restored, kept⟩ :=
            atcall_unkept relative (saveCwd_processWide_refused cwd opened) syscall
          refine ⟨?_, kept⟩
          have refused : ¬ ∃ oldCwd, os.openDot proc = .ok oldCwd := by
            rintro ⟨oldCwd, succeeded⟩
            rw [opened] at succeeded
            cases succeeded
          rw [restored, Recoverable, cwd]
          simp only [refused, false_or]
          by_cases given : fd = -1
          · simp [given, Cwd.leave]
          · simp only [given, if_false, false_or]
            cases chdirTarget os proc fd with
            | error error => simp [Cwd.leave]
            | ok dir => simp [Cwd.enter, Cwd.leave]

/-! ## Errors and credentials -/

def SameActor (before after : Proc FS Dir) : Prop :=
  after.creds = before.creds ∧ after.log = before.log

theorem mplsBestFchdir_sameActor (os : Os FS Dir) (proc : Proc FS Dir) (fd : Int) :
    SameActor proc (mplsBestFchdir os proc fd).2 := by
  rcases mplsBestFchdir_cases os proc fd with ⟨error, failed⟩ | ⟨cwd, entered, _⟩
  · rw [failed]
    exact ⟨rfl, rfl⟩
  · rw [entered]
    exact ⟨rfl, rfl⟩

theorem close_sameActor (proc : Proc FS Dir) (fd : Int) : SameActor proc (close proc fd).2 := by
  unfold close
  split <;> exact ⟨rfl, rfl⟩

theorem openDot_sameActor (os : Os FS Dir) (proc : Proc FS Dir) :
    SameActor proc (openDot os proc).2 := by
  unfold openDot
  split <;> exact ⟨rfl, rfl⟩

theorem SameActor.trans {first second third : Proc FS Dir} (earlier : SameActor first second)
    (later : SameActor second third) : SameActor first third :=
  ⟨later.1.trans earlier.1, later.2.trans earlier.2⟩

theorem saveCwd_sameActor (os : Os FS Dir) (proc : Proc FS Dir) :
    SameActor proc (saveCwd os proc).2 := by
  have probed := (openDot_sameActor os proc).trans (mplsBestFchdir_sameActor os _ (-1))
  unfold saveCwd
  simp only
  split
  · exact probed.trans (close_sameActor _ _)
  · exact probed

theorem restoreCwd_sameActor (os : Os FS Dir) (oldCwd : Int) (proc : Proc FS Dir) :
    SameActor proc (restoreCwd os oldCwd proc) := by
  have entered := mplsBestFchdir_sameActor os proc oldCwd
  unfold restoreCwd protectErrno
  simp only
  split
  · exact SameActor.trans entered (close_sameActor _ _)
  · exact entered

theorem restoreCwd_errno (os : Os FS Dir) (oldCwd : Int) (proc : Proc FS Dir) :
    (restoreCwd os oldCwd proc).errno = proc.errno := by
  unfold restoreCwd protectErrno
  simp only
  split <;> rfl

theorem atcall_creds (os : Os FS Dir) (proc : Proc FS Dir) (fd : Int) (p : Path) (onerr : Int)
    (syscall : Syscall) :
    (atcall os proc fd p onerr (call os syscall)).2.creds = proc.creds := by
  have saved := (saveCwd_sameActor os proc).1
  rcases atcall_cases os proc fd p onerr syscall with
    ⟨_, result⟩ | ⟨_, error, _, result⟩ | ⟨_, inside, _, _, result⟩
  · rw [result]
    exact call_creds os syscall proc
  · rw [result, (restoreCwd_sameActor os _ _).1]
    exact saved
  · rw [result, (restoreCwd_sameActor os _ _).1, call_creds]
    exact saved

theorem atcall_log (os : Os FS Dir) (proc : Proc FS Dir) (fd : Int) (p : Path) (onerr : Int)
    (syscall : Syscall) :
    ∃ event, (atcall os proc fd p onerr (call os syscall)).2.log = proc.log ++ [event] ∧
      ((∃ error, event = .called syscall proc.creds error) ∨
        ∃ error, event = .notEntered fd error) := by
  obtain ⟨creds, log⟩ := saveCwd_sameActor os proc
  rcases atcall_cases os proc fd p onerr syscall with
    ⟨_, result⟩ | ⟨_, error, _, result⟩ | ⟨_, inside, _, _, result⟩
  · obtain ⟨error, called⟩ := call_log os syscall proc
    rw [result]
    exact ⟨_, called, Or.inl ⟨error, rfl⟩⟩
  · rw [result, (restoreCwd_sameActor os _ _).2, log]
    exact ⟨_, rfl, Or.inr ⟨error, rfl⟩⟩
  · obtain ⟨error, called⟩ := call_log os syscall { (saveCwd os proc).2 with cwd := inside }
    rw [result, (restoreCwd_sameActor os _ _).2, called, log, creds]
    exact ⟨_, rfl, Or.inl ⟨error, rfl⟩⟩

def ErrorKept (before after : Proc FS Dir) (value : Int) : Prop :=
  value = -1 → ∃ error, after.errno = error ∧
    ((∃ syscall creds, after.log = before.log ++ [.called syscall creds (some error)]) ∨
      ∃ fd, after.log = before.log ++ [.notEntered fd error])

theorem atcall_errorKept (os : Os FS Dir) (proc : Proc FS Dir) (fd : Int) (p : Path)
    (syscall : Syscall) :
    ErrorKept proc (atcall os proc fd p (-1) (call os syscall)).2
      (atcall os proc fd p (-1) (call os syscall)).1.value := by
  have log := (saveCwd_sameActor os proc).2
  rcases atcall_cases os proc fd p (-1) syscall with
    ⟨_, result⟩ | ⟨_, error, _, result⟩ | ⟨_, inside, _, _, result⟩
  · rw [result]
    intro failed
    obtain ⟨error, errno, logged⟩ := call_errno failed
    exact ⟨error, errno, Or.inl ⟨syscall, proc.creds, logged⟩⟩
  · rw [result]
    intro _
    refine ⟨error, restoreCwd_errno os _ _, Or.inr ⟨fd, ?_⟩⟩
    rw [(restoreCwd_sameActor os _ _).2, log]
  · rw [result]
    intro failed
    obtain ⟨error, errno, logged⟩ := call_errno failed
    refine ⟨error, (restoreCwd_errno os _ _).trans errno,
      Or.inl ⟨syscall, (saveCwd os proc).2.creds, ?_⟩⟩
    rw [(restoreCwd_sameActor os _ _).2, logged, log]

end LegacySupport.Atcalls
