import LegacySupport.AtFunctions

/-!
The descriptors of `fdopendir`. Up to two are opened on the way, that of the old directory and that
of the `DIR`, and each is closed again on every path, whatever the calls do.
-/

namespace LegacySupport.Atcalls

variable {FS Dir : Type}

def closedir (proc : Proc FS Dir) (dir : Int) : Int × Proc FS Dir := close proc dir

def readdirOffset (proc : Proc FS Dir) (dir : Int) : Option Nat :=
  (proc.descriptor dir).map Descriptor.offset

theorem mplsBestFchdir_fds (os : Os FS Dir) (proc : Proc FS Dir) (fd : Int) :
    (mplsBestFchdir os proc fd).2.fds = proc.fds := by
  rcases mplsBestFchdir_cases os proc fd with ⟨error, failed⟩ | ⟨cwd, entered, _⟩
  · rw [failed]
    rfl
  · rw [entered]

theorem saveCwd_fds (os : Os FS Dir) (proc : Proc FS Dir) :
    ((saveCwd os proc).1 = -1 ∧ (saveCwd os proc).2.fds = proc.fds) ∨
      ∃ oldCwd : Nat, (saveCwd os proc).1 = oldCwd ∧ proc.fds oldCwd = none ∧
        (saveCwd os proc).2.fds =
          Function.update proc.fds oldCwd (some (dotDescriptor proc.cwd.here)) := by
  cases opened : os.openDot proc with
  | error error =>
      left
      have probed := mplsBestFchdir_fds os { proc with errno := error } (-1)
      simp [saveCwd, openDot_error opened, Proc.fail, probed]
  | ok oldCwd =>
      have fresh := os.openDot_fresh proc oldCwd opened
      have probed := mplsBestFchdir_fds os (openDot os proc).2 (-1)
      unfold saveCwd
      rw [openDot_ok opened] at probed ⊢
      dsimp only at probed ⊢
      split
      next failed =>
        left
        have held := congrFun probed oldCwd
        rw [Function.update_self] at held
        refine ⟨rfl, ?_⟩
        simp [close, Proc.descriptor, held, probed, update_fresh fresh]
      next =>
        right
        exact ⟨oldCwd, rfl, fresh, probed⟩

theorem restoreCwd_none_fds (os : Os FS Dir) (proc : Proc FS Dir) :
    (restoreCwd os (-1) proc).fds = proc.fds := by
  rw [restoreCwd_none]

theorem restoreCwd_closes (os : Os FS Dir) {proc : Proc FS Dir} {oldCwd : Nat}
    {descriptor : Descriptor Dir} (held : proc.fds oldCwd = some descriptor) :
    (restoreCwd os oldCwd proc).fds = Function.update proc.fds oldCwd none := by
  have entered := mplsBestFchdir_fds os proc oldCwd
  have valid : (oldCwd : Int) ≠ -1 := by omega
  unfold restoreCwd protectErrno
  rw [if_pos valid]
  simp [close, Proc.descriptor, entered, held]

theorem restoreCwd_undoes (os : Os FS Dir) (proc : Proc FS Dir) {inside : Proc FS Dir}
    (same : inside.fds = (saveCwd os proc).2.fds) :
    (restoreCwd os (saveCwd os proc).1 inside).fds = proc.fds := by
  rcases saveCwd_fds os proc with ⟨none, fds⟩ | ⟨oldCwd, saved, fresh, fds⟩
  · rw [none, restoreCwd_none_fds, same, fds]
  · have held : inside.fds oldCwd = some (dotDescriptor proc.cwd.here) := by
      rw [same, fds, Function.update_self]
    rw [saved, restoreCwd_closes os held, same, fds, update_fresh fresh]

theorem restoreCwd_keeps (os : Os FS Dir) (proc : Proc FS Dir) {inside : Proc FS Dir} {dir : Nat}
    {descriptor : Descriptor Dir} (unused : (saveCwd os proc).2.fds dir = none)
    (opened : inside.fds = Function.update (saveCwd os proc).2.fds dir (some descriptor)) :
    proc.fds dir = none ∧ (restoreCwd os (saveCwd os proc).1 inside).fds =
      Function.update proc.fds dir (some descriptor) := by
  rcases saveCwd_fds os proc with ⟨none, fds⟩ | ⟨oldCwd, saved, fresh, fds⟩
  · rw [fds] at unused opened
    rw [none, restoreCwd_none_fds, opened]
    exact ⟨unused, rfl⟩
  · have different : oldCwd ≠ dir := by
      rintro rfl
      rw [fds, Function.update_self] at unused
      cases unused
    have held : inside.fds oldCwd = some (dotDescriptor proc.cwd.here) := by
      rw [opened, Function.update_of_ne different, fds, Function.update_self]
    rw [fds, Function.update_of_ne different.symm] at unused
    refine ⟨unused, ?_⟩
    rw [saved, restoreCwd_closes os held, opened, fds, Function.update_comm different,
      update_fresh]
    rw [Function.update_of_ne different]
    exact fresh

theorem call_opendir_fds (os : Os FS Dir) (proc : Proc FS Dir) (p : Path) :
    ((call os (.opendir p) proc).1 = -1 ∧ (call os (.opendir p) proc).2.fds = proc.fds) ∨
      ∃ (dir : Nat) (descriptor : Descriptor Dir), proc.fds dir = none ∧
        (call os (.opendir p) proc).1 = dir ∧
        (call os (.opendir p) proc).2.fds =
          Function.update proc.fds dir (some descriptor) := by
  unfold call
  cases called : os.exec (.opendir p) proc with
  | error error => exact Or.inl ⟨rfl, rfl⟩
  | ok dir => exact Or.inr ⟨dir, _, os.exec_fresh _ proc dir rfl called, rfl, rfl⟩

theorem atcall_opendir_fds (os : Os FS Dir) (proc : Proc FS Dir) {fd : Int} {p : Path}
    (relative : ¬ Direct fd p) :
    ((atcall os proc fd p (-1) (call os (.opendir p))).1.value = -1 ∧
        (atcall os proc fd p (-1) (call os (.opendir p))).2.fds = proc.fds) ∨
      ∃ (dir : Nat) (descriptor : Descriptor Dir), proc.fds dir = none ∧
        (atcall os proc fd p (-1) (call os (.opendir p))).1 = .yields dir ∧
        (atcall os proc fd p (-1) (call os (.opendir p))).2.fds =
          Function.update proc.fds dir (some descriptor) := by
  rcases atcall_cases os proc fd p (-1) (.opendir p) with
    ⟨direct, _⟩ | ⟨_, error, _, result⟩ | ⟨_, cwd, _, _, result⟩
  · exact absurd direct relative
  · rw [result]
    exact Or.inl ⟨rfl, restoreCwd_undoes os proc rfl⟩
  · rw [result]
    rcases call_opendir_fds os { (saveCwd os proc).2 with cwd := cwd } p with
      ⟨failed, same⟩ | ⟨dir, descriptor, unused, value, opened⟩
    · exact Or.inl ⟨failed, restoreCwd_undoes os proc same⟩
    · obtain ⟨fresh, fds⟩ := restoreCwd_keeps os proc unused opened
      refine Or.inr ⟨dir, descriptor, fresh, ?_, fds⟩
      rw [value]

/-- The descriptors after a call that gives a `DIR`: it has the descriptor supplied, which reads
from the start, and closing it closes that one and no other. -/
structure Adopted (before after : Proc FS Dir) (fd : Int) : Prop where
  supplied : ∃ descriptor, before.descriptor fd = some descriptor ∧
    after.descriptor fd = some { descriptor with offset := 0, closeOnExec := true }
  others : ∀ other : Nat, (other : Int) ≠ fd → after.fds other = before.fds other
  start : readdirOffset after fd = some 0
  closes : (closedir after fd).1 = 0 ∧
    (closedir after fd).2.fds = Function.update before.fds fd.toNat none

theorem adopted_update {before after : Proc FS Dir} {fd : Int} {descriptor : Descriptor Dir}
    (valid : 0 ≤ fd) (held : before.fds fd.toNat = some descriptor)
    (fds : after.fds = Function.update before.fds fd.toNat (some descriptor.adopt)) :
    Adopted before after fd := by
  have opened : after.descriptor fd = some descriptor.adopt := by
    rw [Proc.descriptor, if_pos valid, fds, Function.update_self]
  constructor
  · exact ⟨descriptor, by rw [Proc.descriptor, if_pos valid, held], opened⟩
  · intro other different
    rw [fds, Function.update_of_ne (by omega)]
  · rw [readdirOffset, opened]
    rfl
  · rw [closedir, close, opened]
    refine ⟨rfl, ?_⟩
    change Function.update after.fds fd.toNat none = _
    rw [fds, Function.update_idem]

/-- Whatever the calls do, `fdopendir` leaves the descriptors as they were and fails, or it gives
a `DIR` that has taken over the descriptor supplied. -/
theorem fdopendir_allOrNothing (os : Os FS Dir) (proc : Proc FS Dir) (fd : Int) :
    ((fdopendir os proc fd).1 = -1 ∧ (fdopendir os proc fd).2.fds = proc.fds) ∨
      ((fdopendir os proc fd).1 = fd ∧ 0 ≤ fd ∧ Adopted proc (fdopendir os proc fd).2 fd) := by
  unfold fdopendir
  cases found : fstatDirectory os proc fd with
  | error error => exact Or.inl ⟨rfl, rfl⟩
  | ok directory =>
      cases directory with
      | false => exact Or.inl ⟨rfl, rfl⟩
      | true =>
          have valid := fstatDirectory_valid found
          have relative : ¬ Direct fd ['.'] := by
            rintro (cwd | absolute)
            · unfold atFdcwd at cwd
              omega
            · cases absolute
          dsimp only
          rcases atcall_opendir_fds os proc relative with ⟨value, fds⟩ | ⟨dir, descriptor, result⟩
          · left
            generalize atcall os proc fd ['.'] (-1) (call os (.opendir ['.'])) = outcome at *
            obtain ⟨flow, after⟩ := outcome
            cases flow with
            | exits result => exact ⟨value, fds⟩
            | yields result =>
                change result = -1 at value
                rw [value]
                exact ⟨rfl, fds⟩
          · right
            obtain ⟨fresh, yields, fds⟩ := result
            generalize atcall os proc fd ['.'] (-1) (call os (.opendir ['.'])) = outcome at *
            obtain ⟨flow, after⟩ := outcome
            dsimp only at yields fds
            rw [yields]
            have natural : ¬ (dir : Int) = -1 := by omega
            have closed : (close after dir).2.fds = proc.fds := by
              simp [close, Proc.descriptor, fds, update_fresh fresh]
            dsimp only
            rw [if_neg natural, closed]
            have open' : ∃ held, proc.fds fd.toNat = some held := by
              cases present : proc.fds fd.toNat with
              | none => simp [fstatDirectory, Proc.descriptor, valid, present] at found
              | some held => exact ⟨held, rfl⟩
            obtain ⟨held, present⟩ := open'
            rw [present]
            exact ⟨rfl, valid, adopted_update valid present rfl⟩

end LegacySupport.Atcalls
