import LegacySupport.CopySession

/-!
Calls of `copyfile` with a state that an earlier call has failed with: after a failed `open` no
call copies anything, and after a failed copy the destination that has been removed is written
again without being made again.
-/

namespace LegacySupport.Copyfile

open Runs

variable {call : Call} {s after : Session}

/-! ## After a failed open -/

/-- A descriptor is `-1`, which no call resets. -/
def Poisoned (s : Session) : Prop := s.srcFd = .failed ∨ s.dstFd = .failed

theorem setFname_failed (given kept : Option PathName) :
    (setFname given kept .failed).2 = .failed := by
  unfold setFname
  split
  · rfl
  · rfl
  · split
    · rfl
    · rfl

theorem setFname_named (name : PathName) (kept : Option PathName) (fd : Fd) :
    (setFname (some name) kept fd).1 = some name := by
  cases kept with
  | none => rfl
  | some old => rfl

theorem openSource_frame (call : Call) (s : Session) :
    (openSource call s).2.dstFd = s.dstFd ∧ (openSource call s).2.dst = s.dst ∧
      (openSource call s).2.files = s.files := by
  unfold openSource
  split
  · split
    · exact ⟨rfl, rfl, rfl⟩
    · split
      · exact ⟨rfl, rfl, rfl⟩
      · exact ⟨rfl, rfl, rfl⟩
      · dsimp only
        split
        · exact ⟨rfl, rfl, rfl⟩
        · exact ⟨rfl, rfl, rfl⟩
  · exact ⟨rfl, rfl, rfl⟩

def Emptied (before after : Files) : Prop :=
  ∀ i, after.content i = before.content i ∨ after.content i = []

theorem Emptied.trans {first second third : Files} (one : Emptied first second)
    (two : Emptied second third) : Emptied first third := by
  intro i
  rcases two i with same | empty
  · rw [same]
    exact one i
  · exact Or.inr empty

theorem Emptied.refl (files : Files) : Emptied files files := fun _ => Or.inl rfl

theorem opens_emptied (files : Files) (dst : PathName) (flags : UInt32) :
    Emptied files (files.opens dst flags).2 := by
  have emptied : ∀ j k, Function.update files.content j [] k = files.content k ∨
      Function.update files.content j [] k = [] := by
    intro j k
    rw [Function.update_apply]
    split
    · exact Or.inr rfl
    · exact Or.inl rfl
  unfold Files.opens
  split
  · exact .refl files
  split
  · split
    · exact .refl files
    · dsimp only
      split
      · exact emptied _
      · exact .refl files
  · split
    · exact .refl files
    · exact emptied _

theorem destinationOpens_emptied (dst : PathName) (state : Files × Nat) (flags : UInt32) :
    Emptied state.1 ((destinationOpens call dst).open' state flags).2.1 := by
  unfold destinationOpens
  dsimp only
  split
  · exact .refl state.1
  · exact opens_emptied state.1 dst flags

theorem destinationOpens_chmod (dst : PathName) (state : Files × Nat) :
    ((destinationOpens call dst).chmod state).2 = state := by
  unfold destinationOpens
  dsimp only
  split
  · rfl
  · rfl

theorem openTarget_emptied {result : Except Errno Unit}
    (ran : openTarget call s = some (result, after)) :
    Emptied s.files after.files ∧ after.srcFd = s.srcFd ∧ after.dst = s.dst := by
  unfold openTarget at ran
  split at ran
  next dst _ named =>
    split at ran
    next => cases ran
    next ends opened =>
      have opens : ∀ state flags, Emptied s.files state.1 →
          Emptied s.files ((destinationOpens call dst).open' state flags).2.1 :=
        fun state flags kept => kept.trans (destinationOpens_emptied dst state flags)
      have chmods : ∀ state, Emptied s.files state.1 →
          Emptied s.files ((destinationOpens call dst).chmod state).2.1 := by
        intro state kept
        rwa [destinationOpens_chmod]
      have kept := @openLoop_keeps _ _ (destinationOpens call dst) (openRequest call)
        (fun state => Emptied s.files state.1) opens chmods call.fuel initialOflags (s.files, 0)
        ends (.refl s.files) opened
      split at ran
      next =>
        cases ran
        exact ⟨kept, rfl, rfl⟩
      next =>
        cases ran
        exact ⟨kept, rfl, rfl⟩
  next =>
    cases ran
    exact ⟨.refl s.files, rfl, rfl⟩

theorem openSource_poisoned (call : Call) (poisoned : Poisoned s) :
    Poisoned (openSource call s).2 := by
  rcases poisoned with src | dst
  · refine Or.inl ?_
    rw [openSource_set call (by rw [src]; rintro ⟨⟩)]
    exact src
  · exact Or.inr ((openSource_frame call s).1.trans dst)

theorem openTarget_poisoned {result : Except Errno Unit} (poisoned : Poisoned s)
    (ran : openTarget call s = some (result, after)) : Poisoned after := by
  rcases poisoned with src | dst
  · exact Or.inl ((openTarget_emptied ran).2.1.trans src)
  · rw [openTarget_set call (by rw [dst]; rintro ⟨⟩)] at ran
    cases ran
    exact Or.inr dst

theorem copyfileOpen_poisoned {result : Except Errno Unit} (poisoned : Poisoned s)
    (ran : copyfileOpen call s = some (result, after)) :
    (∃ error, result = .error error) ∧ Poisoned after ∧ Emptied s.files after.files := by
  have first := openSource_poisoned call poisoned
  have files := (openSource_frame call s).2.2
  unfold copyfileOpen at ran
  split at ran
  next error between opened =>
    cases ran
    rw [opened] at first files
    exact ⟨⟨error, rfl⟩, first, files ▸ .refl s.files⟩
  next between opened =>
    rw [opened] at first files
    dsimp only at first files
    split at ran
    next last target =>
      have second := openTarget_poisoned first target
      have emptied := (openTarget_emptied target).1
      rw [files] at emptied
      split at ran
      next source dst =>
        rcases second with failed | failed
        · rw [failed] at source
          cases source
        · rw [failed] at dst
          cases dst
      next =>
        cases ran
        exact ⟨⟨einval, rfl⟩, second, emptied⟩
    next other =>
      cases result with
      | ok value => exact absurd ran (other value after)
      | error error =>
          have emptied := (openTarget_emptied ran).1
          rw [files] at emptied
          exact ⟨⟨error, rfl⟩, openTarget_poisoned first ran, emptied⟩

theorem setFname_keeps_failed {given kept : Option PathName} {fd : Fd} (failed : fd = .failed) :
    (setFname given kept fd).2 = .failed := by
  rw [failed]
  exact setFname_failed given kept

theorem Poisoned.named (poisoned : Poisoned s) (call : Call) :
    Poisoned { s with
      src := (setFname call.src s.src s.srcFd).1
      srcFd := (setFname call.src s.src s.srcFd).2
      dst := (setFname call.dst s.dst s.dstFd).1
      dstFd := (setFname call.dst s.dst s.dstFd).2 } := by
  rcases poisoned with failed | failed
  · exact Or.inl (setFname_keeps_failed failed)
  · exact Or.inr (setFname_keeps_failed failed)

theorem copyfile_poisoned {ret : Int} (poisoned : Poisoned s)
    (ran : copyfile s call = some (ret, after)) :
    ret = -1 ∧ Poisoned after ∧ Emptied s.files after.files := by
  unfold copyfile at ran
  split at ran
  next =>
    cases ran
    exact ⟨rfl, poisoned, .refl s.files⟩
  next =>
    dsimp only at ran
    have named := poisoned.named call
    split at ran
    next => cases ran
    next error last opened =>
      cases ran
      exact ⟨rfl, (copyfileOpen_poisoned named opened).2⟩
    next last opened =>
      obtain ⟨⟨error, refused⟩, -⟩ := copyfileOpen_poisoned named opened
      cases refused

/-- From some `open` of the destination on, none is refused for want of a permission that `chmod`
may give, nor as if the file existed. -/
def Call.Patient (call : Call) : Prop :=
  ∃ last, (∀ made, last ≤ made →
    call.dstOpens made ≠ some eacces ∧ call.dstOpens made ≠ some eexist) ∧ last + 2 ≤ call.fuel

theorem opens_refused {files after : Files} {dst : PathName} {flags : UInt32} {error : Errno}
    (refused : files.opens dst flags = (.error error, after)) :
    after = files ∧ error ≠ eacces ∧ (error = eexist → flags &&& oCreat ≠ 0) := by
  unfold Files.opens at refused
  split at refused
  · cases refused
    exact ⟨rfl, by decide, by rintro ⟨⟩⟩
  · split at refused
    · split at refused
      next creates =>
        cases refused
        exact ⟨rfl, by decide, fun _ => creates.1⟩
      next => cases refused
    · split at refused
      · cases refused
        exact ⟨rfl, by decide, by rintro ⟨⟩⟩
      · cases refused

theorem existing_again {demand : Demand} (writes : demand ≠ .directory) :
    (demand.oflags true &&& ~~~oCreat) ||| oTrunc = Demand.existing.oflags true := by
  cases demand with
  | create => decide
  | existing => decide
  | directory => exact absurd rfl writes

theorem destinationOpens_answers (dst : PathName) (files : Files) (made : Nat) (flags : UInt32) :
    (∃ i after, (destinationOpens call dst).open' (files, made) flags =
        (.ok i, after, made + 1)) ∨
      ∃ error, (destinationOpens call dst).open' (files, made) flags =
          (.error error, files, made + 1) ∧
        (error = eacces → call.dstOpens made = some eacces) ∧
        (error = eexist → call.dstOpens made = some eexist ∨ flags &&& oCreat ≠ 0) := by
  cases answer : call.dstOpens made with
  | some error =>
      refine Or.inr ⟨error, by simp only [destinationOpens, answer], ?_, ?_⟩
      · rintro rfl
        rfl
      · rintro rfl
        exact Or.inl rfl
  | none =>
      have granted : (destinationOpens call dst).open' (files, made) flags =
          ((files.opens dst flags).1, (files.opens dst flags).2, made + 1) := by
        simp only [destinationOpens, answer]
      cases opened : files.opens dst flags with
      | mk result after =>
          rw [opened] at granted
          cases result with
          | ok i => exact Or.inl ⟨i, after, granted⟩
          | error error =>
              obtain ⟨rfl, allowed, creates⟩ := opens_refused opened
              exact Or.inr ⟨error, granted, fun denied => absurd denied allowed,
                fun there => Or.inr (creates there)⟩

/-- A round whose `open` is refused. -/
theorem openLoop_refused {dst : PathName} {demand : Demand} {files : Files} {made fuel : Nat}
    {error : Errno} (writes : demand ≠ .directory)
    (answered : (destinationOpens call dst).open' (files, made)
      (demand.oflags true ||| (openRequest call).dsrc) = (.error error, files, made + 1))
    (there : error = eexist → (openLoop (destinationOpens call dst) (openRequest call) fuel
      (Demand.existing.oflags true) (files, made + 1)).isSome)
    (denied : error = eacces → (openLoop (destinationOpens call dst) (openRequest call) fuel
      (demand.oflags true) (files, made + 1)).isSome) :
    (openLoop (destinationOpens call dst) (openRequest call) (fuel + 1) (demand.oflags true)
      (files, made)).isSome := by
  rw [openLoop, answered]
  dsimp only
  split
  next exists' =>
    split
    next => rfl
    next =>
      have truncates : ((openRequest call).pack || (openRequest call).data) = true := rfl
      rw [if_pos truncates, existing_again writes, Option.isSome_map]
      exact there exists'
  next =>
    split
    next permission =>
      split
      next state answer =>
        have same := @destinationOpens_chmod call dst (files, made + 1)
        rw [answer] at same
        rw [show state = (files, made + 1) from same, Option.isSome_map]
        exact denied permission
      next => rfl
    next =>
      split
      next =>
        split
        next => rfl
        next unpacked => exact absurd (by simp [openRequest]) unpacked
      next => rfl

/-- Each `open` is one of those that may be refused for long, or there are at most two more. -/
theorem openLoop_ends {dst : PathName} {last : Nat}
    (few : ∀ made, last ≤ made →
      call.dstOpens made ≠ some eacces ∧ call.dstOpens made ≠ some eexist) (fuel : Nat) :
    ∀ demand files made, demand ≠ Demand.directory → last - made + (2 - demand.rank) ≤ fuel →
      (openLoop (destinationOpens call dst) (openRequest call) fuel (demand.oflags true)
        (files, made)).isSome := by
  have early : ∀ {made}, call.dstOpens made = some eacces ∨ call.dstOpens made = some eexist →
      made < last := by
    intro made refused
    by_contra late
    obtain ⟨permitted, new⟩ := few made (Nat.le_of_not_lt late)
    exact refused.elim permitted new
  induction fuel with
  | zero =>
      intro demand files made writes enough
      cases demand with
      | create => exact absurd enough (by simp [Demand.rank])
      | existing => exact absurd enough (by simp [Demand.rank])
      | directory => exact absurd rfl writes
  | succ fuel ih =>
      intro demand files made writes enough
      rcases destinationOpens_answers dst files made
        (demand.oflags true ||| (openRequest call).dsrc) with
        ⟨i, after, granted⟩ | ⟨error, answered, denied, there⟩
      · rw [openLoop, granted]
        rfl
      refine openLoop_refused writes answered (fun exists' => ?_) fun permission => ?_
      · refine ih .existing files (made + 1) (by rintro ⟨⟩) ?_
        rw [Demand.rank]
        rcases there exists' with refused | creates
        · have soon := early (Or.inr refused)
          have rank : demand.rank ≤ 1 := by cases demand <;> simp_all [Demand.rank]
          omega
        · have plain : (openRequest call).Plain := Or.inl rfl
          rw [attempt_creates plain creates, Demand.rank] at enough
          omega
      · have soon := early (Or.inl (denied permission))
        exact ih demand files (made + 1) writes (by omega)

theorem openTarget_ends (patient : call.Patient) (s : Session) : (openTarget call s).isSome := by
  obtain ⟨last, few, enough⟩ := patient
  unfold openTarget
  split
  next dst _ named =>
    have ends : (openDestination (destinationOpens call dst) (openRequest call) call.fuel
        (s.files, 0)).isSome :=
      openLoop_ends few call.fuel .create s.files 0 (by rintro ⟨⟩) enough
    obtain ⟨result, opened⟩ := Option.isSome_iff_exists.mp ends
    rw [opened]
    dsimp only
    split
    · rfl
    · rfl
  next => rfl

theorem copyfileOpen_ends (patient : call.Patient) (s : Session) :
    (copyfileOpen call s).isSome := by
  unfold copyfileOpen
  split
  · rfl
  next between opened =>
    have target := openTarget_ends patient between
    obtain ⟨⟨result, after⟩, ran⟩ := Option.isSome_iff_exists.mp target
    rw [ran]
    cases result with
    | error error => rfl
    | ok done =>
        dsimp only
        split
        · rfl
        · rfl

theorem copyfile_refused {error : Errno} (given : ¬ (call.src = none ∧ call.dst = none))
    (refused : copyfileOpen call { s with
        src := (setFname call.src s.src s.srcFd).1
        srcFd := (setFname call.src s.src s.srcFd).2
        dst := (setFname call.dst s.dst s.dstFd).1
        dstFd := (setFname call.dst s.dst s.dstFd).2 } = some (.error error, after)) :
    copyfile s call = some (-1, after) := by
  rw [copyfile, if_neg given]
  dsimp only
  rw [refused]

theorem copyfile_poisoned_returns (poisoned : Poisoned s) (patient : call.Patient) :
    ∃ after, copyfile s call = some (-1, after) := by
  by_cases missing : call.src = none ∧ call.dst = none
  · exact ⟨s, by rw [copyfile, if_pos missing]⟩
  · obtain ⟨⟨result, after⟩, opened⟩ :=
      Option.isSome_iff_exists.mp (copyfileOpen_ends patient { s with
        src := (setFname call.src s.src s.srcFd).1
        srcFd := (setFname call.src s.src s.srcFd).2
        dst := (setFname call.dst s.dst s.dstFd).1
        dstFd := (setFname call.dst s.dst s.dstFd).2 })
    obtain ⟨⟨error, rfl⟩, -⟩ := copyfileOpen_poisoned (poisoned.named call) opened
    exact ⟨after, copyfile_refused missing opened⟩

theorem step_poisoned (s : Session) (call : Call) (poisoned : Poisoned s) :
    Poisoned (s.step call) ∧ Emptied s.files (s.step call).files := by
  unfold Session.step
  split
  next ran => exact (copyfile_poisoned poisoned ran).2
  next => exact ⟨poisoned, .refl s.files⟩

theorem copyfileOpen_unopened {between : Session}
    (first : openSource call s = (.ok (), between))
    (second : openTarget call between = some (.ok (), after)) (failed : after.srcFd = .failed) :
    copyfileOpen call s = some (.error einval, after) := by
  rw [copyfileOpen, first]
  dsimp only
  rw [second]
  dsimp only
  rw [failed]

theorem copyfile_empties {src dst : PathName} (asks : Asks call src dst) (fuel : 2 ≤ call.fuel)
    (failed : s.srcFd = .failed) (reopens : (setFname (some dst) s.dst s.dstFd).2 = .unset) :
    ∃ after, copyfile s call = some (-1, after) ∧ after.files = (s.files.emptied dst).2 := by
  have given : ¬ (call.src = none ∧ call.dst = none) := by
    rw [asks.srcName]
    rintro ⟨⟨⟩, -⟩
  have named := setFname_named dst s.dst s.dstFd
  have source : (setFname (some src) s.src s.srcFd).2 = .failed := setFname_keeps_failed failed
  have first := openSource_set call
    (s := { s with
      src := (setFname (some src) s.src s.srcFd).1
      srcFd := (setFname (some src) s.src s.srcFd).2
      dst := (setFname (some dst) s.dst s.dstFd).1
      dstFd := (setFname (some dst) s.dst s.dstFd).2 }) (by rw [source]; rintro ⟨⟩)
  have second := openTarget_unset
    (s := { s with
      src := (setFname (some src) s.src s.srcFd).1
      srcFd := (setFname (some src) s.src s.srcFd).2
      dst := (setFname (some dst) s.dst s.dstFd).1
      dstFd := (setFname (some dst) s.dst s.dstFd).2 })
    reopens named asks.dstFits asks.dstOpens asks.shared fuel
  have refused := copyfileOpen_unopened first second source
  rw [← asks.srcName, ← asks.dstName] at refused
  exact ⟨_, copyfile_refused given refused, rfl⟩

/-- Once an `open` has failed, every call with the state fails, whatever names it is given and
whatever the system answers, and none of them writes a byte. They do empty files: where it is
the source that could not be opened, the destination is opened, and with that truncated. -/
theorem copyfile_poisoned_run (poisoned : Poisoned s) {calls : List Call}
    (patient : ∀ call ∈ calls, call.Patient) :
    Throughout Session.step (fun s call => ∃ after, copyfile s call = some (-1, after)) s calls ∧
      Emptied s.files (calls.foldl Session.step s).files ∧
      ∀ call src dst, Asks call src dst → 2 ≤ call.fuel → s.srcFd = .failed →
        (setFname (some dst) s.dst s.dstFd).2 = .unset →
          ∃ after, copyfile s call = some (-1, after) ∧ after.files = (s.files.emptied dst).2 := by
  refine ⟨?_, ?_, fun call src dst => copyfile_empties⟩
  · induction calls generalizing s with
    | nil => exact throughout_nil s
    | cons call rest ih =>
        exact ⟨copyfile_poisoned_returns poisoned (patient call List.mem_cons_self),
          ih (step_poisoned s call poisoned).1
            fun other member => patient other (List.mem_cons_of_mem _ member)⟩
  · clear patient
    induction calls generalizing s with
    | nil => exact .refl s.files
    | cons call rest ih =>
        obtain ⟨next, emptied⟩ := step_poisoned s call poisoned
        exact emptied.trans (ih next)

def deniedCall : Call :=
  { plainCall fileA fileB with dstOpens := fun made => if made < 2 then some eacces else none }

theorem copyfile_poisoned_run_full :
    let s := (copyfileStateAlloc twoFiles).step
      { plainCall fileA fileB with srcOpens := some emfile }
    Throughout Session.step (fun s call => ∃ after, copyfile s call = some (-1, after)) s
        [deniedCall, plainCall fileB fileC] ∧
      (s.step (plainCall fileA fileB)).files.content 1 = [] := by
  intro s
  have poisoned : Poisoned s := Or.inl rfl
  have patient : ∀ call ∈ [deniedCall, plainCall fileB fileC], call.Patient := by
    intro call member
    rcases List.mem_pair.mp member with rfl | rfl
    · refine ⟨2, fun made late => ?_, by decide⟩
      have granted : deniedCall.dstOpens made = none := if_neg (Nat.not_lt.mpr late)
      rw [granted]
      exact ⟨by rintro ⟨⟩, by rintro ⟨⟩⟩
    · exact ⟨0, fun made late => ⟨by rintro ⟨⟩, by rintro ⟨⟩⟩, by decide⟩
  obtain ⟨fails, -, empties⟩ := copyfile_poisoned_run poisoned patient
  obtain ⟨after, ran, files⟩ := empties (plainCall fileA fileB) fileA fileB
    (plainCall_asks _ _ (by decide) (by decide)) (by decide) rfl rfl
  refine ⟨fails, ?_⟩
  rw [Session.step, ran]
  dsimp only
  rw [files]
  rfl

/-! ## After a failed copy -/

structure Lost (name : PathName) (s : Session) : Prop where
  missing : s.files.inode name = none
  named : ∃ kept, s.dst = some kept ∧ kept.Same name
  opened : ∃ file, s.dstFd = .opened file

def SameTarget (name : PathName) (call : Call) : Prop :=
  ∀ other, call.dst = some other → other.Same name

theorem unlink_missing {files : Files} {name : PathName} (missing : files.inode name = none)
    (other : PathName) : (files.unlink other).inode name = none := by
  unfold Files.unlink
  dsimp only
  rw [Function.update_apply]
  split
  · rfl
  · exact missing

theorem copyfileInternal_names {ret : Int} (ran : copyfileInternal call s = some (ret, after)) :
    after.src = s.src ∧ after.dst = s.dst ∧
      ((∃ file, s.dstFd = .opened file) → ∃ file, after.dstFd = .opened file) ∧
      (after.files.inode = s.files.inode ∨
        ∃ name, s.dst = some name ∧ after.files.inode = (s.files.unlink name).inode) := by
  unfold copyfileInternal at ran
  split at ran
  next source dst srcOpened dstOpened =>
    dsimp only at ran
    split at ran
    next => cases ran
    next =>
      split at ran
      next => cases ran
      next ret' copied data =>
        cases ran
        refine ⟨rfl, rfl, fun _ => ⟨_, rfl⟩, ?_⟩
        dsimp only
        split
        · split
          next name named => exact Or.inr ⟨name, named, rfl⟩
          next => exact Or.inl rfl
        · exact Or.inl rfl
  next =>
    cases ran
    exact ⟨rfl, rfl, id, Or.inl rfl⟩

theorem Lost.internal {name : PathName} (lost : Lost name s) {ret : Int}
    (ran : copyfileInternal call s = some (ret, after)) : Lost name after := by
  obtain ⟨-, dst, opened, names⟩ := copyfileInternal_names ran
  refine ⟨?_, by rw [dst]; exact lost.named, opened lost.opened⟩
  rcases names with same | ⟨other, -, same⟩
  · rw [same]
    exact lost.missing
  · rw [same]
    exact unlink_missing lost.missing other

theorem Lost.openTarget {name : PathName} (lost : Lost name s) (call : Call) :
    openTarget call s = some (.ok (), s) := by
  obtain ⟨file, opened⟩ := lost.opened
  exact openTarget_set call (by rw [opened]; rintro ⟨⟩)

theorem Lost.open {name : PathName} (lost : Lost name s) {result : Except Errno Unit}
    (ran : copyfileOpen call s = some (result, after)) : Lost name after := by
  obtain ⟨dstFd, dst, files⟩ := openSource_frame call s
  have first : Lost name (openSource call s).2 :=
    ⟨by rw [files]; exact lost.missing, by rw [dst]; exact lost.named,
      by rw [dstFd]; exact lost.opened⟩
  unfold copyfileOpen at ran
  split at ran
  next error between opened =>
    cases ran
    rwa [opened] at first
  next between opened =>
    rw [opened] at first
    have second := first.openTarget call
    dsimp only at second
    rw [second] at ran
    dsimp only at ran
    split at ran
    next =>
      cases ran
      exact first
    next =>
      cases ran
      exact first

theorem Lost.named_again {name : PathName} (lost : Lost name s) (same : SameTarget name call) :
    Lost name { s with
      src := (setFname call.src s.src s.srcFd).1
      srcFd := (setFname call.src s.src s.srcFd).2
      dst := (setFname call.dst s.dst s.dstFd).1
      dstFd := (setFname call.dst s.dst s.dstFd).2 } := by
  obtain ⟨kept, keptNamed, keptSame⟩ := lost.named
  refine ⟨lost.missing, ?_, ?_⟩
  · dsimp only
    cases given : call.dst with
    | none =>
        rw [setFname]
        exact ⟨kept, keptNamed, keptSame⟩
    | some other =>
        rw [setFname_named]
        exact ⟨other, rfl, same other given⟩
  · dsimp only
    cases given : call.dst with
    | none =>
        rw [setFname]
        exact lost.opened
    | some other =>
        rw [keptNamed, setFname_same ((same other given).trans keptSame.symm)]
        exact lost.opened

theorem Lost.step {name : PathName} (lost : Lost name s) (same : SameTarget name call) :
    Lost name (s.step call) := by
  unfold Session.step
  split
  next ret after ran =>
    unfold copyfile at ran
    split at ran
    next =>
      cases ran
      exact lost
    next =>
      dsimp only at ran
      have named := lost.named_again same
      split at ran
      next => cases ran
      next error last opened =>
        cases ran
        exact named.open opened
      next last opened => exact (named.open opened).internal ran
  next => exact lost

theorem openSource_error {error : Errno} (ran : openSource call s = (.error error, after)) :
    ∀ file, after.srcFd ≠ .opened file := by
  unfold openSource at ran
  split at ran
  next src unset _ =>
    split at ran
    next =>
      cases ran
      rw [unset]
      rintro file ⟨⟩
    next =>
      split at ran
      next =>
        cases ran
        rw [unset]
        rintro file ⟨⟩
      next =>
        cases ran
        rw [unset]
        rintro file ⟨⟩
      next =>
        dsimp only at ran
        split at ran
        next =>
          cases ran
          rintro file ⟨⟩
        next => cases ran
  next => cases ran

theorem openTarget_error {error : Errno} (ran : openTarget call s = some (.error error, after)) :
    after.dstFd = .failed := by
  unfold openTarget at ran
  split at ran
  next =>
    split at ran
    next => cases ran
    next =>
      split at ran
      next =>
        cases ran
        rfl
      next => cases ran
  next => cases ran

theorem copyfileOpen_error {error : Errno} {source dst : OpenFile}
    (ran : copyfileOpen call s = some (.error error, after)) : ¬ Opened after source dst := by
  rintro ⟨srcOpened, dstOpened⟩
  unfold copyfileOpen at ran
  split at ran
  next other between first =>
    cases ran
    exact openSource_error first source srcOpened
  next =>
    split at ran
    next =>
      split at ran
      next => cases ran
      next unopened =>
        cases ran
        exact unopened source dst srcOpened dstOpened
    next =>
      rw [openTarget_error ran] at dstOpened
      cases dstOpened

theorem copyfileOpen_dst {result : Except Errno Unit}
    (ran : copyfileOpen call s = some (result, after)) : after.dst = s.dst := by
  have source := (openSource_frame call s).2.1
  unfold copyfileOpen at ran
  split at ran
  next error between first =>
    cases ran
    rw [first] at source
    exact source
  next between first =>
    rw [first] at source
    have target : ∀ {result after}, openTarget call between = some (result, after) →
        after.dst = s.dst := by
      intro result after opened
      exact (openTarget_emptied opened).2.2.trans source
    split at ran
    next last opened =>
      split at ran
      next =>
        cases ran
        exact target opened
      next =>
        cases ran
        exact target opened
    next => exact target ran

theorem copyfileInternal_failed {source dst : OpenFile} {name : PathName}
    (ran : copyfileInternal call s = some (-1, after)) (opened : Opened after source dst)
    (named : s.dst = some name) : after.files.inode name = none := by
  unfold copyfileInternal at ran
  split at ran
  next =>
    dsimp only at ran
    split at ran
    next => cases ran
    next =>
      split at ran
      next => cases ran
      next ret copied data =>
        cases ran
        dsimp only
        rw [if_pos (by decide), named]
        exact Function.update_self name none s.files.inode
  next unopened =>
    cases ran
    exact absurd opened.dst (unopened source dst opened.src)

theorem copyfile_lost {source dst : OpenFile} {name : PathName}
    (failed : copyfile s call = some (-1, after)) (named : call.dst = some name)
    (opened : Opened after source dst) : Lost name after := by
  unfold copyfile at failed
  split at failed
  next missing =>
    rw [named] at missing
    cases missing.2
  next =>
    dsimp only at failed
    split at failed
    next => cases failed
    next error last refused =>
      cases failed
      exact absurd opened (copyfileOpen_error refused)
    next last ready =>
      have dstName := copyfileOpen_dst ready
      dsimp only at dstName
      rw [named, setFname_named] at dstName
      obtain ⟨-, kept, -, -⟩ := copyfileInternal_names failed
      exact ⟨copyfileInternal_failed failed opened dstName, ⟨name, kept.trans dstName, rfl⟩,
        dst, opened.dst⟩

theorem Lost.run {name : PathName} (lost : Lost name s) {calls : List Call}
    (same : ∀ call ∈ calls, SameTarget name call) :
    (calls.foldl Session.step s).files.inode name = none := by
  have guarded : Throughout Session.step (fun _ call => SameTarget name call) s calls :=
    (throughout_inputs (SameTarget name) s calls).mpr same
  have kept : ∀ s call, Lost name s → SameTarget name call → Lost name (s.step call) :=
    fun _ _ lost same => lost.step same
  exact (guarded.keeps kept lost).missing

/-- A copy that fails removes the destination, but keeps its descriptor. The calls that try again
with the same state, as often as they may, do not bring it back: they write to a file that has no
name, and the first that nothing fails reports success. -/
theorem copyfile_lost_run {source dst : OpenFile} {name : PathName}
    (failed : copyfile s call = some (-1, after)) (named : call.dst = some name)
    (opened : Opened after source dst) :
    (∀ calls : List Call, (∀ call ∈ calls, SameTarget name call) →
      (calls.foldl Session.step after).files.inode name = none) ∧
    ∀ again src, Asks again src name → Again src after.src → source.inode ≠ dst.inode →
      after.sb.mode &&& sIfmt = sIfreg → 0 < after.sb.blksize →
      2 * (after.files.content source.inode).length + 2 ≤ again.fuel →
        ∃ last, copyfile after again = some (0, last) := by
  have lost := copyfile_lost failed named opened
  refine ⟨fun calls same => lost.run same, ?_⟩
  rintro again src asks ⟨lastSrc, srcNamed, srcSame⟩ apart regular block enough
  obtain ⟨kept, dstNamed, dstSame⟩ := lost.named
  have first : setFname (some src) after.src after.srcFd = (some src, after.srcFd) := by
    rw [srcNamed, setFname_same srcSame]
  have second : setFname (some name) after.dst after.dstFd = (some name, after.dstFd) := by
    rw [dstNamed, setFname_same dstSame.symm]
  have srcSet : after.srcFd ≠ .unset := by
    rw [opened.src]
    rintro ⟨⟩
  have dstSet : after.dstFd ≠ .unset := by
    rw [opened.dst]
    rintro ⟨⟩
  have opens := copyfileOpen_opened
    (openSource_set again (s := { after with src := some src, dst := some name }) srcSet)
    (openTarget_set again dstSet) opened.src opened.dst
  have internal := copyfileInternal_quiet asks.quiet
    (s := { after with src := some src, dst := some name })
    ⟨opened.src, opened.dst⟩ regular block (fun same => absurd same apart) enough
  exact ⟨_, (asks.copyfile_opened first second opens).trans internal⟩

def brokenSystem : DataSystem :=
  { quietSystem with write := fun made => if made = 0 then .count 1 else .failed 28 }

def brokenCall : Call := { plainCall fileA fileB with system := brokenSystem }

theorem copyfile_lost_run_broken :
    let after := (copyfileStateAlloc twoFiles).step brokenCall
    ([plainCall fileA fileB].foldl Session.step after).files.inode fileB = none ∧
      ∃ last, copyfile after (plainCall fileA fileB) = some (0, last) := by
  intro after
  have failed : copyfile (copyfileStateAlloc twoFiles) brokenCall = some (-1, after) := rfl
  obtain ⟨missing, again⟩ := @copyfile_lost_run brokenCall (copyfileStateAlloc twoFiles) after
    ⟨0, 2⟩ ⟨1, 1⟩ fileB failed rfl ⟨rfl, rfl⟩
  constructor
  · refine missing _ ?_
    intro call member other given
    rw [List.mem_singleton.mp member] at given
    cases given
    rfl
  · exact again _ fileA (plainCall_asks _ _ (by decide) (by decide)) ⟨fileA, rfl, rfl⟩ (by decide)
      (by decide) (by decide) (by decide)

end LegacySupport.Copyfile
