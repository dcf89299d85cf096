import LegacySupport.AtFunctions

/-!
The credentials in `faccessat`. The effective ids are installed as the real ones around the
macro, and the macro can return from the function in between.
-/

namespace LegacySupport.Atcalls

variable {FS Dir : Type}

def Creds.swap (creds : Creds) : Creds := ⟨creds.euid, creds.ruid, creds.egid, creds.rgid⟩

theorem Creds.swap_eq_iff (creds : Creds) :
    creds.swap = creds ↔ creds.ruid = creds.euid ∧ creds.rgid = creds.egid := by
  obtain ⟨ruid, euid, rgid, egid⟩ := creds
  simp only [Creds.swap, Creds.mk.injEq]
  omega

theorem swapUid_when (os : Os FS Dir) {proc : Proc FS Dir} {ruid euid : Nat} {differ : Prop}
    [Decidable differ] (real : proc.creds.ruid = euid) (effective : proc.creds.euid = ruid)
    (needed : differ ↔ ruid ≠ euid) :
    (if differ then swapUid os proc ruid euid else proc) =
      { proc with creds := { proc.creds with ruid := ruid, euid := euid } } := by
  subst real effective
  split
  next => rw [swapUid, os.setreuid_swap]
  next same =>
    have equal := not_not.mp (needed.not.mp same)
    obtain ⟨⟨ruid, euid, rgid, egid⟩, cwd, fds, errno, fs, log⟩ := proc
    simp only at equal
    simp only [equal]

theorem swapGid_when (os : Os FS Dir) {proc : Proc FS Dir} {rgid egid : Nat} {differ : Prop}
    [Decidable differ] (real : proc.creds.rgid = egid) (effective : proc.creds.egid = rgid)
    (needed : differ ↔ rgid ≠ egid) :
    (if differ then swapGid os proc rgid egid else proc) =
      { proc with creds := { proc.creds with rgid := rgid, egid := egid } } := by
  subst real effective
  split
  next => rw [swapGid, os.setregid_swap]
  next same =>
    have equal := not_not.mp (needed.not.mp same)
    obtain ⟨⟨ruid, euid, rgid, egid⟩, cwd, fds, errno, fs, log⟩ := proc
    simp only at equal
    simp only [equal]

theorem faccessatSwap_effective (os : Os FS Dir) (proc : Proc FS Dir) {flags : UInt32}
    (effective : flags &&& atEaccess ≠ 0) :
    faccessatSwap os proc flags = { proc with creds := proc.creds.swap } := by
  unfold faccessatSwap
  dsimp only
  rw [swapUid_when os rfl rfl (by simp [effective, ne_comm]),
    swapGid_when os rfl rfl (by simp [effective, ne_comm])]
  rfl

theorem faccessatSwap_real (os : Os FS Dir) (proc : Proc FS Dir) {flags : UInt32}
    (real : flags &&& atEaccess = 0) : faccessatSwap os proc flags = proc := by
  simp [faccessatSwap, real]

/-! ## Entering the directory given -/

def Unenterable (os : Os FS Dir) (proc : Proc FS Dir) (fd : Int) : Prop :=
  ∀ dir, chdirTarget os proc fd ≠ .ok dir

theorem unenterable_minusOne (os : Os FS Dir) (proc : Proc FS Dir) :
    Unenterable os proc (-1) := by
  intro dir
  simp [chdirTarget, Proc.descriptor]

theorem mplsBestFchdir_fails_dropped {os : Os FS Dir} {proc : Proc FS Dir} {process : Dir}
    (dropped : proc.cwd = .perThread process none) (fd : Int) :
    (mplsBestFchdir os proc fd).1 < 0 ↔ Unenterable os proc fd := by
  by_cases given : fd = -1
  · subst given
    refine iff_of_true ?_ (unenterable_minusOne os proc)
    simp [mplsBestFchdir, dropped, pthreadFchdirNp, Proc.fail]
  · rw [mplsBestFchdir_enter os proc given, Unenterable]
    cases chdirTarget os proc fd <;> simp [Proc.fail]

theorem mplsBestFchdir_fails_processWide {os : Os FS Dir} {proc : Proc FS Dir} {process : Dir}
    (cwd : proc.cwd = .processWide process) (fd : Int) :
    (mplsBestFchdir os proc fd).1 < 0 ↔ fd ≠ -1 ∧ Unenterable os proc fd := by
  by_cases given : fd = -1
  · simp [mplsBestFchdir, cwd, given]
  · rw [mplsBestFchdir_enter os proc given, Unenterable]
    cases chdirTarget os proc fd <;> simp [Proc.fail, given]

/-- The descriptor given cannot be entered from this state, where the one that `open(".")` has
just made counts as open, unless the thread has no directory of its own to keep. -/
def Refused (os : Os FS Dir) (proc : Proc FS Dir) (fd : Int) : Prop :=
  match proc.cwd with
  | .perThread _ none => Unenterable os proc fd
  | .perThread _ (some _) => Unenterable os (openDot os proc).2 fd
  | .processWide _ => fd ≠ -1 ∧ Unenterable os (openDot os proc).2 fd

theorem enter_fails_iff (os : Os FS Dir) (proc : Proc FS Dir) (fd : Int) :
    (mplsBestFchdir os (saveCwd os proc).2 fd).1 < 0 ↔ Refused os proc fd := by
  unfold Refused
  cases cwd : proc.cwd with
  | perThread process thread =>
      cases thread with
      | none =>
          have dropped : (saveCwd os proc).2.cwd = .perThread process none := by
            rw [saveCwd_follows os cwd]
            exact cwd
          rw [mplsBestFchdir_fails_dropped dropped, saveCwd_follows os cwd]
          rfl
      | some own =>
          cases opened : os.openDot proc with
          | error error =>
              rw [saveCwd_own_refused cwd opened, openDot_error opened]
              exact mplsBestFchdir_fails_dropped rfl fd
          | ok oldCwd =>
              have here : proc.cwd.here = own := by rw [cwd]; rfl
              rw [saveCwd_own cwd opened, openDot_ok opened, here]
              exact mplsBestFchdir_fails_dropped rfl fd
  | processWide process =>
      cases opened : os.openDot proc with
      | error error =>
          have stayed : (saveCwd os proc).2.cwd = .processWide process := by
            rw [saveCwd_processWide_refused cwd opened]
            exact cwd
          rw [mplsBestFchdir_fails_processWide stayed, saveCwd_processWide_refused cwd opened,
            openDot_error opened]
          rfl
      | ok oldCwd =>
          have here : proc.cwd.here = process := by rw [cwd]; rfl
          have stayed : (saveCwd os proc).2.cwd = .processWide process := by
            rw [saveCwd_processWide cwd opened]
            exact cwd
          rw [mplsBestFchdir_fails_processWide stayed, saveCwd_processWide cwd opened,
            openDot_ok opened, here]

theorem atcall_exits_iff (os : Os FS Dir) (proc : Proc FS Dir) (fd : Int) (p : Path)
    (onerr : Int) (what : Proc FS Dir → Int × Proc FS Dir) :
    (∃ value, (atcall os proc fd p onerr what).1 = .exits value) ↔
      ¬ Direct fd p ∧ Refused os proc fd := by
  rw [← enter_fails_iff]
  unfold atcall
  dsimp only
  split
  next relative =>
    split
    next failed => simp [relative, failed]
    next entered => simp [entered]
  next direct => simp [not_not.mp direct]

/-! ## The credentials -/

def AccessAsEffective (before after : Proc FS Dir) (flags : UInt32) : Prop :=
  ∀ events, after.log = before.log ++ events → flags &&& atEaccess ≠ 0 →
    ∀ path mode creds error, .called (.access path mode) creds error ∈ events →
      creds.ruid = before.creds.euid ∧ creds.rgid = before.creds.egid

def SwapAbandoned (os : Os FS Dir) (proc : Proc FS Dir) (dirfd : Int) (pathname : Path)
    (flags : UInt32) : Prop :=
  flags &&& ~~~atEaccess = 0 ∧ flags &&& atEaccess ≠ 0 ∧
    (proc.creds.ruid ≠ proc.creds.euid ∨ proc.creds.rgid ≠ proc.creds.egid) ∧
    ¬ Direct dirfd pathname ∧
    Refused os { proc with creds := proc.creds.swap } dirfd

theorem faccessat_accessAsEffective (os : Os FS Dir) (proc : Proc FS Dir) (dirfd : Int)
    (pathname : Path) (mode : Int) (flags : UInt32) :
    AccessAsEffective proc (faccessat os proc dirfd pathname mode flags).2 flags := by
  intro events logged effective path accessed creds error called
  by_cases allowed : flags &&& ~~~atEaccess = 0
  · obtain ⟨after, result⟩ := faccessat_atcall os proc dirfd pathname mode allowed
    obtain ⟨event, log, kinds⟩ := atcall_log os (faccessatSwap os proc flags) dirfd pathname (-1)
      (.access pathname mode)
    rw [faccessatSwap_effective os proc effective] at log kinds result
    rw [result] at logged
    have only : events = [event] := List.append_cancel_left (logged.symm.trans log)
    rw [only, List.mem_singleton] at called
    rcases kinds with ⟨outcome, made⟩ | ⟨outcome, missed⟩
    · rw [made] at called
      cases called
      exact ⟨rfl, rfl⟩
    · rw [missed] at called
      cases called
  · have refused : faccessat os proc dirfd pathname mode flags = proc.reject einval :=
      if_pos allowed
    rw [refused] at logged
    have only : events = [.rejected einval] := (List.append_cancel_left logged).symm
    rw [only, List.mem_singleton] at called
    cases called

theorem swap_restored (os : Os FS Dir) (start : Proc FS Dir) (flags : UInt32)
    {proc : Proc FS Dir} (kept : proc.creds = (faccessatSwap os start flags).creds) :
    let users := if start.creds.ruid ≠ start.creds.euid ∧ flags &&& atEaccess ≠ 0 then
        swapUid os proc start.creds.ruid start.creds.euid else proc
    let groups := if start.creds.rgid ≠ start.creds.egid ∧ flags &&& atEaccess ≠ 0 then
        swapGid os users start.creds.rgid start.creds.egid else users
    groups.creds = start.creds := by
  by_cases effective : flags &&& atEaccess = 0
  · rw [faccessatSwap_real os start effective] at kept
    simp [effective, kept]
  · rw [faccessatSwap_effective os start effective] at kept
    dsimp only
    rw [swapUid_when os (by rw [kept]; rfl) (by rw [kept]; rfl) (by simp [effective]),
      swapGid_when os (by rw [kept]; rfl) (by rw [kept]; rfl) (by simp [effective])]

theorem faccessat_creds (os : Os FS Dir) (proc : Proc FS Dir) (dirfd : Int) (pathname : Path)
    (mode : Int) {flags : UInt32} (allowed : flags &&& ~~~atEaccess = 0) :
    (¬ Direct dirfd pathname ∧ Refused os (faccessatSwap os proc flags) dirfd ∧
        (faccessat os proc dirfd pathname mode flags).2.creds =
          (faccessatSwap os proc flags).creds) ∨
      (¬ (¬ Direct dirfd pathname ∧ Refused os (faccessatSwap os proc flags) dirfd) ∧
        (faccessat os proc dirfd pathname mode flags).2.creds = proc.creds) := by
  have kept := atcall_creds os (faccessatSwap os proc flags) dirfd pathname (-1)
    (.access pathname mode)
  have exits := atcall_exits_iff os (faccessatSwap os proc flags) dirfd pathname (-1)
    (call os (.access pathname mode))
  unfold faccessat
  rw [if_neg (not_not.mpr allowed)]
  dsimp only
  split
  next value after result =>
    rw [result] at kept exits
    obtain ⟨relative, refused⟩ := exits.mp ⟨value, rfl⟩
    exact Or.inl ⟨relative, refused, kept⟩
  next value after result =>
    rw [result] at kept exits
    refine Or.inr ⟨fun abandoned => ?_, swap_restored os proc flags kept⟩
    obtain ⟨_, left⟩ := exits.mpr abandoned
    cases left

/-- `faccessat` restores the credentials, and makes its call with the right ones, exactly when
the macro does not leave it while the ids are swapped. -/
theorem faccessat_restores_iff (os : Os FS Dir) (proc : Proc FS Dir) (dirfd : Int)
    (pathname : Path) (mode : Int) (flags : UInt32) :
    ((faccessat os proc dirfd pathname mode flags).2.creds = proc.creds ∧
        AccessAsEffective proc (faccessat os proc dirfd pathname mode flags).2 flags) ↔
      ¬ SwapAbandoned os proc dirfd pathname flags := by
  rw [and_iff_left (faccessat_accessAsEffective os proc dirfd pathname mode flags)]
  by_cases allowed : flags &&& ~~~atEaccess = 0
  · by_cases effective : flags &&& atEaccess = 0
    · have same := faccessatSwap_real os proc effective
      refine iff_of_true ?_ fun abandoned => abandoned.2.1 effective
      rcases faccessat_creds os proc dirfd pathname mode allowed with
        ⟨_, _, left⟩ | ⟨_, restored⟩
      · rw [left, same]
      · exact restored
    · have swapped := faccessatSwap_effective os proc effective
      unfold SwapAbandoned
      rcases faccessat_creds os proc dirfd pathname mode allowed with
        ⟨relative, refused, left⟩ | ⟨completed, restored⟩
      · rw [swapped] at refused left
        rw [left, Creds.swap_eq_iff]
        simp only [allowed, effective, relative, refused, ne_eq, not_false_eq_true, and_true,
          true_and, not_or, not_not]
      · rw [swapped] at completed
        exact iff_of_true restored fun abandoned => completed abandoned.2.2.2
  · have refused : faccessat os proc dirfd pathname mode flags = proc.reject einval :=
      if_pos allowed
    rw [refused]
    exact iff_of_true rfl fun abandoned => allowed abandoned.1

theorem faccessat_leaves_swapped :
    (faccessat (plainOs (.ok 5)) ownCwdProc 8 ['f'] 4 atEaccess).1 = -1 ∧
      ownCwdProc.creds = ⟨501, 0, 20, 0⟩ ∧
      (faccessat (plainOs (.ok 5)) ownCwdProc 8 ['f'] 4 atEaccess).2.creds = ⟨0, 501, 0, 20⟩ :=
  ⟨rfl, rfl, rfl⟩

end LegacySupport.Atcalls
