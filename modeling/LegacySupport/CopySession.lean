import LegacySupport.CopySessionCore
import LegacySupport.Runs

/-!
Calls of `copyfile` with one state. Where every call names other files than the one before, each of
them copies a file; where a name is repeated the descriptors are used again as they stand, at the
ends of their files.
-/

namespace LegacySupport.Copyfile

open FileBytes Runs

variable {call : Call}

theorem PathName.same_iff {left right : PathName} (leftFits : left.Fits) (rightFits : right.Fits) :
    left.Same right ↔ left = right := by
  unfold PathName.Fits at leftFits rightFits
  rw [PathName.Same, List.take_of_length_le leftFits.le, List.take_of_length_le rightFits.le]
  refine ⟨fun same => ?_, fun same => by rw [same]⟩
  cases left
  cases right
  cases same
  rfl

/-- `COPYFILE_SET_FNAME` finds the name that the state has. -/
def Again (name : PathName) (kept : Option PathName) : Prop :=
  ∃ last, kept = some last ∧ name.Same last

theorem setFname_same {name old : PathName} (same : name.Same old) (fd : Fd) :
    setFname (some name) (some old) fd = (some name, fd) := by
  rw [setFname, if_pos same]

theorem sIfreg_regular : sIfreg &&& sIfmt = sIfreg := by decide

/-! ## Opening the two files -/

def Files.emptied (files : Files) (dst : PathName) : Nat × Files :=
  match files.inode dst with
  | some j => (j, files.set j [])
  | none => (files.next, files.create dst)

theorem Files.emptied_inode (files : Files) (dst : PathName) :
    (files.emptied dst).2.inode dst = some (files.emptied dst).1 := by
  unfold Files.emptied
  split
  next j found => exact found
  next => exact Function.update_self dst (some files.next) files.inode

theorem Files.emptied_apart {files : Files} {src dst : PathName} {i : Nat}
    (found : files.inode src = some i) (other : files.inode dst ≠ some i) :
    i ≠ (files.emptied dst).1 := by
  unfold Files.emptied
  split
  next j there =>
    rintro rfl
    exact other there
  next => exact Nat.ne_of_lt (files.older src i found)

theorem Files.emptied_other {files : Files} {src dst : PathName} {i : Nat}
    (found : files.inode src = some i) : (files.emptied dst).2.inode src = some i := by
  unfold Files.emptied
  split
  next => exact found
  next missing =>
    have differs : src ≠ dst := by
      rintro rfl
      rw [missing] at found
      cases found
    exact (Function.update_of_ne differs _ _).trans found

theorem Files.emptied_content (files : Files) (dst : PathName) (i : Nat) :
    (files.emptied dst).2.content i =
      if i = (files.emptied dst).1 then [] else files.content i := by
  unfold Files.emptied
  split
  · exact Function.update_apply files.content _ [] i
  · exact Function.update_apply files.content _ [] i

section Destination

variable {dst : PathName} {files : Files}

theorem opens_create (fits : dst.Fits) (missing : files.inode dst = none) :
    files.opens dst initialOflags = (.ok files.next, files.create dst) := by
  have creates : ¬ initialOflags &&& oCreat = 0 := by decide
  simp only [Files.opens, fits, missing, creates, not_true, if_false]

theorem opens_exists (fits : dst.Fits) {j : Nat} (found : files.inode dst = some j) :
    files.opens dst initialOflags = (.error eexist, files) := by
  have creates : initialOflags &&& oCreat ≠ 0 ∧ initialOflags &&& oExcl ≠ 0 := by decide
  simp only [Files.opens, fits, found, not_true, if_false]
  rw [if_pos creates]

theorem opens_truncates (fits : dst.Fits) {j : Nat} (found : files.inode dst = some j) :
    files.opens dst (Demand.existing.oflags true) = (.ok j, files.set j []) := by
  have plain : ¬ (Demand.existing.oflags true &&& oCreat ≠ 0 ∧
      Demand.existing.oflags true &&& oExcl ≠ 0) := by decide
  have truncates : Demand.existing.oflags true &&& oTrunc ≠ 0 := by decide
  simp only [Files.opens, fits, found, not_true, if_false]
  rw [if_neg plain, if_pos truncates]

theorem destinationOpens_granted (opens : ∀ made, call.dstOpens made = none) (dst : PathName)
    (files : Files) (made : Nat) (flags : UInt32) :
    (destinationOpens call dst).open' (files, made) flags =
      ((files.opens dst flags).1, (files.opens dst flags).2, made + 1) := by
  simp only [destinationOpens, opens]

theorem openDestination_empties (files : Files) (fits : dst.Fits)
    (opens : ∀ made, call.dstOpens made = none) (shared : call.excl = false) (fuel : Nat) :
    ∃ made attempts,
      openDestination (destinationOpens call dst) (openRequest call) (fuel + 2) (files, 0) =
        some ⟨.ok (files.emptied dst).1, ((files.emptied dst).2, made), attempts⟩ := by
  have plain : ∀ oflags : UInt32, oflags ||| (openRequest call).dsrc = oflags := fun _ =>
    UInt32.or_zero
  unfold Files.emptied openDestination
  cases found : files.inode dst with
  | none =>
      refine ⟨1, [initialOflags], ?_⟩
      rw [openLoop, plain, destinationOpens_granted opens, opens_create fits found]
  | some j =>
      refine ⟨2, [initialOflags, Demand.existing.oflags true], ?_⟩
      have unexclusive : ¬ (openRequest call).excl = true := by
        rw [openRequest, shared]
        decide
      rw [openLoop, plain, destinationOpens_granted opens, opens_exists fits found]
      dsimp only
      rw [if_pos rfl, if_neg unexclusive, existing_oflags, openLoop, plain]
      have truncates : ((openRequest call).pack || (openRequest call).data) = true := rfl
      rw [truncates, destinationOpens_granted opens, opens_truncates fits found]
      rfl

end Destination

variable {s : Session}

theorem openSource_unset (call : Call) {src : PathName} {i : Nat} (unset : s.srcFd = .unset)
    (named : s.src = some src) (fits : src.Fits) (found : s.files.inode src = some i)
    (stats : call.srcStats = none) (opens : call.srcOpens = none) :
    openSource call s =
      (.ok (), { s with
        srcFd := .opened ⟨i, 0⟩
        sb := ⟨sIfreg, (s.files.content i).length, call.blksize⟩ }) := by
  simp only [openSource, unset, named, found, fits, stats, opens, not_true, if_false]

theorem openSource_set (call : Call) (set : s.srcFd ≠ .unset) :
    openSource call s = (.ok (), s) := by
  unfold openSource
  split
  next unset _ => exact absurd unset set
  next => rfl

theorem openTarget_unset {dst : PathName} (unset : s.dstFd = .unset) (named : s.dst = some dst)
    (fits : dst.Fits) (opens : ∀ made, call.dstOpens made = none) (shared : call.excl = false)
    (fuel : 2 ≤ call.fuel) :
    openTarget call s =
      some (.ok (), { s with
        dstFd := .opened ⟨(s.files.emptied dst).1, 0⟩
        files := (s.files.emptied dst).2 }) := by
  obtain ⟨made, attempts, opened⟩ := openDestination_empties s.files fits opens shared (call.fuel - 2)
  rw [Nat.sub_add_cancel fuel] at opened
  simp only [openTarget, unset, named, opened]

theorem openTarget_set (call : Call) (set : s.dstFd ≠ .unset) :
    openTarget call s = some (.ok (), s) := by
  unfold openTarget
  split
  next unset _ => exact absurd unset set
  next => rfl

theorem copyfileOpen_opened {between after : Session} {source dst : OpenFile}
    (first : openSource call s = (.ok (), between))
    (second : openTarget call between = some (.ok (), after))
    (srcOpened : after.srcFd = .opened source) (dstOpened : after.dstFd = .opened dst) :
    copyfileOpen call s = some (.ok (), after) := by
  rw [copyfileOpen, first]
  dsimp only
  rw [second]
  dsimp only
  rw [srcOpened, dstOpened]

structure Opened (s : Session) (source dst : OpenFile) : Prop where
  src : s.srcFd = .opened source
  dst : s.dstFd = .opened dst

theorem copyfileInternal_quiet (quiet : Quiet call.system) {source dst : OpenFile}
    (opened : Opened s source dst) (regular : s.sb.mode &&& sIfmt = sIfreg)
    (block : 0 < s.sb.blksize)
    (apart : source.inode = dst.inode → (s.files.content source.inode).drop source.offset = [])
    (enough : 2 * (s.files.content source.inode).length + 2 ≤ call.fuel) :
    copyfileInternal call s =
      let unread := (s.files.content source.inode).drop source.offset
      some (0, { s with
        srcFd := .opened ⟨source.inode, source.offset + unread.length⟩
        dstFd := .opened ⟨dst.inode, dst.offset + unread.length⟩
        files := s.files.set dst.inode
          (resize 0 (overwrite 0 (s.files.content dst.inode) dst.offset unread) s.sb.size) }) := by
  have separate : ¬ (source.inode = dst.inode ∧
      (s.files.content source.inode).drop source.offset ≠ []) :=
    fun both => both.2 (apart both.1)
  have shorter : ((s.files.content source.inode).drop source.offset).length ≤
      (s.files.content source.inode).length := by
    rw [List.length_drop]
    exact Nat.sub_le _ _
  have steps : 2 * ((s.files.content source.inode).drop source.offset).length + 2 ≤ call.fuel := by
    omega
  obtain ⟨after, ran, written, drained, offset⟩ := copyfileData_quiet quiet regular block
    ⟨(s.files.content source.inode).drop source.offset, s.files.content dst.inode, dst.offset,
      0, 0, 0, 0, 0, 0⟩ steps
  simp only [copyfileInternal, opened.src, opened.dst, if_neg separate, ran]
  rw [if_neg (by decide : ¬ (0 : Int) < 0), written, drained, offset]
  rfl

/-! ## A run of copies -/

structure Asks (call : Call) (src dst : PathName) : Prop where
  srcName : call.src = some src
  dstName : call.dst = some dst
  srcFits : src.Fits
  dstFits : dst.Fits
  shared : call.excl = false
  quiet : Quiet call.system
  block : 0 < call.blksize
  srcStats : call.srcStats = none
  srcOpens : call.srcOpens = none
  dstOpens : ∀ made, call.dstOpens made = none

theorem Asks.copyfile_opened {src dst : PathName} (asks : Asks call src dst) {after : Session}
    {srcFd dstFd : Fd} (first : setFname (some src) s.src s.srcFd = (some src, srcFd))
    (second : setFname (some dst) s.dst s.dstFd = (some dst, dstFd))
    (opened : copyfileOpen call
        { s with src := some src, srcFd := srcFd, dst := some dst, dstFd := dstFd } =
      some (.ok (), after)) :
    copyfile s call = copyfileInternal call after := by
  have given : ¬ (call.src = none ∧ call.dst = none) := by
    rw [asks.srcName]
    rintro ⟨missing, -⟩
    cases missing
  rw [copyfile, if_neg given, asks.srcName, asks.dstName, first, second]
  dsimp only
  rw [opened]

/-- What a copy is for: the destination, which is made where there is none, has the contents of the
source. -/
def Files.copy (files : Files) (src dst : PathName) : Files :=
  match files.inode src with
  | none => files
  | some i =>
      match files.inode dst with
      | some j => files.set j (files.content i)
      | none => (files.create dst).set files.next (files.content i)

theorem Files.set_set (files : Files) (j : Nat) (first second : List UInt8) :
    (files.set j first).set j second = files.set j second := by
  unfold Files.set
  rw [Function.update_idem]

theorem Files.emptied_set {files : Files} {src : PathName} {i : Nat}
    (found : files.inode src = some i) (dst : PathName) :
    (files.emptied dst).2.set (files.emptied dst).1 (files.content i) = files.copy src dst := by
  unfold Files.emptied Files.copy
  rw [found]
  cases files.inode dst with
  | some j => exact Files.set_set files j [] (files.content i)
  | none => rfl

structure Copied (s : Session) (src dst : PathName) (i j : Nat) : Prop where
  srcName : s.src = some src
  dstName : s.dst = some dst
  srcFits : src.Fits
  dstFits : dst.Fits
  srcInode : s.files.inode src = some i
  dstInode : s.files.inode dst = some j
  apart : i ≠ j
  opened : Opened s ⟨i, (s.files.content i).length⟩ ⟨j, (s.files.content i).length⟩
  same : s.files.content j = s.files.content i
  regular : s.sb.mode &&& sIfmt = sIfreg
  size : s.sb.size = (s.files.content i).length
  block : 0 < s.sb.blksize

/-- A state that has not been used, or that has copied a file. -/
def Settled (s : Session) : Prop :=
  (∃ files, s = copyfileStateAlloc files) ∨ ∃ src dst i j, Copied s src dst i j

theorem Copied.settled {src dst : PathName} {i j : Nat} (copied : Copied s src dst i j) :
    Settled s :=
  Or.inr ⟨src, dst, i, j, copied⟩

/-- Both names are others than those of the call before, and name two files, or none yet. -/
def NewNames (s : Session) (call : Call) : Prop :=
  ∃ src dst i, Asks call src dst ∧ s.files.inode src = some i ∧ s.files.inode dst ≠ some i ∧
    ¬ Again src s.src ∧ ¬ Again dst s.dst ∧
    2 * (s.files.content i).length + 2 ≤ call.fuel

theorem Settled.setFname_src (settled : Settled s) {name : PathName}
    (differs : ¬ Again name s.src) :
    setFname (some name) s.src s.srcFd = (some name, .unset) := by
  rcases settled with ⟨files, rfl⟩ | ⟨src, dst, i, j, copied⟩
  · rfl
  · rw [copied.srcName, setFname, if_neg fun same => differs ⟨src, copied.srcName, same⟩,
      copied.opened.src, Fd.close]

theorem Settled.setFname_dst (settled : Settled s) {name : PathName}
    (differs : ¬ Again name s.dst) :
    setFname (some name) s.dst s.dstFd = (some name, .unset) := by
  rcases settled with ⟨files, rfl⟩ | ⟨src, dst, i, j, copied⟩
  · rfl
  · rw [copied.dstName, setFname, if_neg fun same => differs ⟨dst, copied.dstName, same⟩,
      copied.opened.dst, Fd.close]

theorem copyfile_newNames (settled : Settled s) {src dst : PathName} {i : Nat}
    (asks : Asks call src dst) (found : s.files.inode src = some i)
    (other : s.files.inode dst ≠ some i) (srcNew : ¬ Again src s.src) (dstNew : ¬ Again dst s.dst)
    (enough : 2 * (s.files.content i).length + 2 ≤ call.fuel) :
    ∃ after, copyfile s call = some (0, after) ∧ after.files = s.files.copy src dst ∧
      Copied after src dst i (s.files.emptied dst).1 := by
  have apart := Files.emptied_apart found other
  have kept : (s.files.emptied dst).2.content i = s.files.content i := by
    rw [Files.emptied_content, if_neg apart]
  have emptied : (s.files.emptied dst).2.content (s.files.emptied dst).1 = [] := by
    rw [Files.emptied_content, if_pos rfl]
  have opens := copyfileOpen_opened
    (openSource_unset call
      (s := { s with src := some src, srcFd := .unset, dst := some dst, dstFd := .unset })
      rfl rfl asks.srcFits found asks.srcStats asks.srcOpens)
    (openTarget_unset rfl rfl asks.dstFits asks.dstOpens asks.shared (by omega)) rfl rfl
  have reduced := asks.copyfile_opened (settled.setFname_src srcNew) (settled.setFname_dst dstNew)
    opens
  rw [copyfileInternal_quiet asks.quiet ⟨rfl, rfl⟩ sIfreg_regular asks.block
    (fun same => absurd same apart) (by dsimp only; rw [kept]; exact enough)] at reduced
  dsimp only at reduced
  rw [kept, emptied, List.drop_zero, overwrite_empty, resize_length, Files.emptied_set found,
    Nat.zero_add] at reduced
  have content : ∀ k, (s.files.copy src dst).content k =
      if k = (s.files.emptied dst).1 then s.files.content i
      else (s.files.emptied dst).2.content k := by
    intro k
    rw [← Files.emptied_set found]
    exact Function.update_apply _ _ _ k
  have inode : (s.files.copy src dst).inode = (s.files.emptied dst).2.inode := by
    rw [← Files.emptied_set found]
    rfl
  have source : (s.files.copy src dst).content i = s.files.content i := by
    rw [content, if_neg apart, kept]
  refine ⟨_, reduced, rfl, ?_⟩
  exact {
    srcName := rfl
    dstName := rfl
    srcFits := asks.srcFits
    dstFits := asks.dstFits
    srcInode := by
      dsimp only
      rw [inode]
      exact Files.emptied_other found
    dstInode := by
      dsimp only
      rw [inode]
      exact Files.emptied_inode s.files dst
    apart := apart
    opened := by
      constructor
      · dsimp only
        rw [source]
      · dsimp only
        rw [source]
    same := by
      dsimp only
      rw [content, if_pos rfl, source]
    regular := sIfreg_regular
    size := by
      dsimp only
      rw [source]
    block := asks.block }

def Call.copy (files : Files) (call : Call) : Files :=
  match call.src, call.dst with
  | some src, some dst => files.copy src dst
  | _, _ => files

theorem newNames_step (settled : Settled s) (guarded : NewNames s call) :
    (copyfile s call).map Prod.fst = some 0 ∧ (s.step call).files = Call.copy s.files call ∧
      ∃ src dst i j, Copied (s.step call) src dst i j := by
  obtain ⟨src, dst, i, asks, found, other, srcNew, dstNew, enough⟩ := guarded
  obtain ⟨after, ran, copied, settled⟩ := copyfile_newNames settled asks found other srcNew dstNew
    enough
  have stepped : s.step call = after := by rw [Session.step, ran]
  rw [stepped, ran]
  refine ⟨rfl, ?_, src, dst, i, _, settled⟩
  rw [copied, Call.copy, asks.srcName, asks.dstName]

theorem settled_step (s : Session) (call : Call) (settled : Settled s) (guarded : NewNames s call) :
    Settled (s.step call) :=
  Or.inr (newNames_step settled guarded).2.2

theorem settled_run (files : Files) {calls : List Call}
    (guarded : Throughout Session.step NewNames (copyfileStateAlloc files) calls) :
    Settled (calls.foldl Session.step (copyfileStateAlloc files)) :=
  guarded.keeps settled_step (Or.inl ⟨files, rfl⟩)

theorem files_run {calls : List Call} : ∀ {s : Session}, Settled s →
    Throughout Session.step NewNames s calls →
      (calls.foldl Session.step s).files = calls.foldl Call.copy s.files := by
  induction calls with
  | nil =>
      intro s settled guarded
      rfl
  | cons call rest ih =>
      intro s settled guarded
      obtain ⟨-, copied, after⟩ := newNames_step settled guarded.1
      rw [List.foldl_cons, List.foldl_cons, ← copied]
      exact ih (Or.inr after) guarded.2

/-- A state may be used again and again: where each call names other files than the one before it,
all of them succeed, and the files are those of the copies made one after the other. -/
theorem copyfile_run_copies (files : Files) {calls : List Call}
    (guarded : Throughout Session.step NewNames (copyfileStateAlloc files) calls) :
    (calls.foldl Session.step (copyfileStateAlloc files)).files = calls.foldl Call.copy files ∧
      Throughout Session.step (fun s call => (copyfile s call).map Prod.fst = some 0)
        (copyfileStateAlloc files) calls := by
  have initial : Settled (copyfileStateAlloc files) := Or.inl ⟨files, rfl⟩
  refine ⟨files_run initial guarded, ?_⟩
  exact guarded.imp settled_step
    (fun _ _ settled guarded => (newNames_step settled guarded).1) initial

def fileA : PathName := ⟨[97], by decide⟩
def fileB : PathName := ⟨[98], by decide⟩
def fileC : PathName := ⟨[99], by decide⟩

def twoFiles : Files where
  inode name := if name = fileA then some 0 else if name = fileB then some 1 else none
  content i := if i = 0 then [1, 2] else [3, 4, 5]
  next := 2
  older name i found := by
    split at found
    · cases found
      decide
    · split at found
      · cases found
        decide
      · cases found

def quietSystem : DataSystem where
  malloc _ := true
  srcIosize := none
  dstIosize := none
  read _ := .count 1
  write _ := .count 1
  status := none
  ftruncate := none

theorem quietSystem_quiet : Quiet quietSystem where
  malloc _ := rfl
  srcIosize size given := by cases given
  read made error refused := by cases refused
  write made := ⟨1, by decide, rfl⟩
  status := rfl
  ftruncate := rfl

def plainCall (src dst : PathName) : Call where
  src := some src
  dst := some dst
  excl := false
  system := quietSystem
  blksize := 1
  srcStats := none
  srcOpens := none
  dstOpens _ := none
  dstChmods _ := none
  fuel := 8

theorem plainCall_asks (src dst : PathName) (srcFits : src.Fits) (dstFits : dst.Fits) :
    Asks (plainCall src dst) src dst where
  srcName := rfl
  dstName := rfl
  srcFits := srcFits
  dstFits := dstFits
  shared := rfl
  quiet := quietSystem_quiet
  block := Nat.one_pos
  srcStats := rfl
  srcOpens := rfl
  dstOpens _ := rfl

theorem plainCall_guarded :
    Throughout Session.step NewNames (copyfileStateAlloc twoFiles) [plainCall fileA fileC] := by
  refine ⟨⟨fileA, fileC, 0, plainCall_asks _ _ (by decide) (by decide), rfl, ?_, ?_, ?_, by decide⟩,
    True.intro⟩
  · rintro ⟨⟩
  · rintro ⟨last, ⟨⟩, -⟩
  · rintro ⟨last, ⟨⟩, -⟩

def exchange : List Call := [plainCall fileA fileC, plainCall fileB fileA, plainCall fileC fileB]

theorem exchange_guarded :
    Throughout Session.step NewNames (copyfileStateAlloc twoFiles) exchange := by
  refine ⟨plainCall_guarded.1, ⟨fileB, fileA, 1, plainCall_asks _ _ (by decide) (by decide), rfl,
    ?_, ?_, ?_, by decide⟩, ⟨fileC, fileB, 2, plainCall_asks _ _ (by decide) (by decide), rfl,
    ?_, ?_, ?_, by decide⟩, True.intro⟩
  · decide
  · rintro ⟨last, ⟨⟩, same⟩
    revert same
    decide
  · rintro ⟨last, ⟨⟩, same⟩
    revert same
    decide
  · decide
  · rintro ⟨last, ⟨⟩, same⟩
    revert same
    decide
  · rintro ⟨last, ⟨⟩, same⟩
    revert same
    decide

theorem copyfile_run_copies_exchange :
    (exchange.foldl Session.step (copyfileStateAlloc twoFiles)).files.content 0 = [3, 4, 5] ∧
      (exchange.foldl Session.step (copyfileStateAlloc twoFiles)).files.content 1 = [1, 2] ∧
      Throughout Session.step (fun s call => (copyfile s call).map Prod.fst = some 0)
        (copyfileStateAlloc twoFiles) exchange := by
  obtain ⟨copied, succeed⟩ := copyfile_run_copies twoFiles exchange_guarded
  rw [copied]
  exact ⟨by decide, by decide, succeed⟩

/-! ## A name given again -/

section Again

variable {lastSrc lastDst src dst : PathName} {i k : Nat}

theorem Copied.again_source (copied : Copied s lastSrc lastDst i k) (asks : Asks call src dst)
    (repeated : src.Same lastSrc) (dstNew : ¬ Again dst s.dst)
    (enough : 2 * (s.files.content i).length + 2 ≤ call.fuel) :
    ∃ after, copyfile s call = some (0, after) ∧
      after.files = (s.files.emptied dst).2.set (s.files.emptied dst).1
        (List.replicate (s.files.content i).length 0) := by
  have first : setFname (some src) s.src s.srcFd = (some src, s.srcFd) := by
    rw [copied.srcName, setFname_same repeated]
  have second := copied.settled.setFname_dst dstNew
  have set : s.srcFd ≠ .unset := by
    rw [copied.opened.src]
    rintro ⟨⟩
  have opens := copyfileOpen_opened
    (openSource_set call
      (s := { s with src := some src, dst := some dst, dstFd := .unset }) set)
    (openTarget_unset rfl rfl asks.dstFits asks.dstOpens asks.shared (by omega))
    copied.opened.src rfl
  have reduced := asks.copyfile_opened first second opens
  have shorter : ((s.files.emptied dst).2.content i).length ≤ (s.files.content i).length := by
    rw [Files.emptied_content]
    split
    · exact Nat.zero_le _
    · exact Nat.le_refl _
  have drained : ((s.files.emptied dst).2.content i).drop (s.files.content i).length = [] :=
    List.drop_of_length_le shorter
  have emptied : (s.files.emptied dst).2.content (s.files.emptied dst).1 = [] := by
    rw [Files.emptied_content, if_pos rfl]
  have internal := copyfileInternal_quiet asks.quiet
    (s := { s with
      src := some src
      dst := some dst
      dstFd := .opened ⟨(s.files.emptied dst).1, 0⟩
      files := (s.files.emptied dst).2 })
    ⟨copied.opened.src, rfl⟩ copied.regular copied.block (fun _ => drained) (by dsimp only; omega)
  rw [internal] at reduced
  dsimp only at reduced
  rw [drained, emptied, overwrite_nil, resize_empty, copied.size] at reduced
  exact ⟨_, reduced, rfl⟩

theorem Copied.again_destination (copied : Copied s lastSrc lastDst i k)
    (asks : Asks call src dst) (srcNew : ¬ Again src s.src) (repeated : dst.Same lastDst)
    {l : Nat} (found : s.files.inode src = some l) (apart : l ≠ k)
    (enough : 2 * (s.files.content l).length + 2 ≤ call.fuel) :
    ∃ after, copyfile s call = some (0, after) ∧
      after.files = s.files.set k
        ((s.files.content k ++ s.files.content l).take (s.files.content l).length) := by
  have first := copied.settled.setFname_src srcNew
  have second : setFname (some dst) s.dst s.dstFd = (some dst, s.dstFd) := by
    rw [copied.dstName, setFname_same repeated]
  have set : s.dstFd ≠ .unset := by
    rw [copied.opened.dst]
    rintro ⟨⟩
  have opens := copyfileOpen_opened
    (openSource_unset call
      (s := { s with src := some src, srcFd := .unset, dst := some dst })
      rfl rfl asks.srcFits found asks.srcStats asks.srcOpens)
    (openTarget_set call set) rfl copied.opened.dst
  have reduced := asks.copyfile_opened first second opens
  have internal := copyfileInternal_quiet asks.quiet
    (s := { s with
      src := some src
      dst := some dst
      srcFd := .opened ⟨l, 0⟩
      sb := ⟨sIfreg, (s.files.content l).length, call.blksize⟩ })
    ⟨rfl, copied.opened.dst⟩ sIfreg_regular asks.block (fun same => absurd same apart) enough
  rw [internal] at reduced
  dsimp only at reduced
  rw [List.drop_zero, ← copied.same, overwrite_length, resize_append _ _ (Nat.le_refl _)] at reduced
  exact ⟨_, reduced, rfl⟩

theorem Copied.again_both (copied : Copied s lastSrc lastDst i k) (asks : Asks call src dst)
    (srcAgain : src.Same lastSrc) (dstAgain : dst.Same lastDst)
    (enough : 2 * (s.files.content i).length + 2 ≤ call.fuel) :
    ∃ after, copyfile s call = some (0, after) ∧ after.files = s.files := by
  have first : setFname (some src) s.src s.srcFd = (some src, s.srcFd) := by
    rw [copied.srcName, setFname_same srcAgain]
  have second : setFname (some dst) s.dst s.dstFd = (some dst, s.dstFd) := by
    rw [copied.dstName, setFname_same dstAgain]
  have srcSet : s.srcFd ≠ .unset := by
    rw [copied.opened.src]
    rintro ⟨⟩
  have dstSet : s.dstFd ≠ .unset := by
    rw [copied.opened.dst]
    rintro ⟨⟩
  have opens := copyfileOpen_opened
    (openSource_set call (s := { s with src := some src, dst := some dst }) srcSet)
    (openTarget_set call dstSet) copied.opened.src copied.opened.dst
  have reduced := asks.copyfile_opened first second opens
  have internal := copyfileInternal_quiet asks.quiet
    (s := { s with src := some src, dst := some dst })
    ⟨copied.opened.src, copied.opened.dst⟩ copied.regular copied.block
    (fun same => absurd same copied.apart) enough
  rw [internal] at reduced
  dsimp only at reduced
  rw [List.drop_length, overwrite_nil, copied.size, ← copied.same, resize_length] at reduced
  refine ⟨_, reduced, ?_⟩
  dsimp only
  rw [Files.set, Function.update_eq_self]

end Again

theorem Settled.copied (settled : Settled s) {name : PathName} (named : s.src = some name) :
    ∃ dst i k, Copied s name dst i k := by
  rcases settled with ⟨files, rfl⟩ | ⟨src, dst, i, k, copied⟩
  · cases named
  · rw [copied.srcName] at named
    cases named
    exact ⟨dst, i, k, copied⟩

/-- After such a run a call for the same source makes a file of zeros, of the size of the source,
where another destination is given. Where the same is given, it does nothing. -/
theorem copyfile_run_again_source (files : Files) {calls : List Call}
    (guarded : Throughout Session.step NewNames (copyfileStateAlloc files) calls)
    {src dst : PathName} (asks : Asks call src dst) :
    let s := calls.foldl Session.step (copyfileStateAlloc files)
    ∀ i, s.files.inode src = some i → 2 * (s.files.content i).length + 2 ≤ call.fuel →
      Again src s.src → ∃ after, copyfile s call = some (0, after) ∧
        (¬ Again dst s.dst → after.files = (s.files.emptied dst).2.set (s.files.emptied dst).1
          (List.replicate (s.files.content i).length 0)) ∧
        (Again dst s.dst → after.files = s.files) := by
  intro s i found enough ⟨last, named, same⟩
  obtain ⟨lastDst, j, k, copied⟩ := (settled_run files guarded).copied named
  cases (PathName.same_iff asks.srcFits copied.srcFits).mp same
  have inode := copied.srcInode
  rw [found] at inode
  cases inode
  by_cases dstAgain : Again dst s.dst
  · obtain ⟨other, otherNamed, dstSame⟩ := dstAgain
    have kept := copied.dstName
    rw [otherNamed] at kept
    cases kept
    obtain ⟨after, ran, whole⟩ := copied.again_both asks same dstSame enough
    exact ⟨after, ran, fun new => absurd ⟨_, otherNamed, dstSame⟩ new, fun _ => whole⟩
  · obtain ⟨after, ran, whole⟩ := copied.again_source asks same dstAgain enough
    exact ⟨after, ran, fun _ => whole, fun again => absurd again dstAgain⟩

theorem copyfile_run_again_source_once :
    ∃ after, copyfile (Session.step (copyfileStateAlloc twoFiles) (plainCall fileA fileC))
        (plainCall fileA fileB) = some (0, after) ∧ after.files.content 1 = [0, 0] := by
  obtain ⟨after, ran, zeros, -⟩ := copyfile_run_again_source twoFiles plainCall_guarded
    (plainCall_asks fileA fileB (by decide) (by decide)) 0 rfl (by decide)
    ⟨fileA, rfl, rfl⟩
  refine ⟨after, ran, ?_⟩
  rw [zeros (by rintro ⟨last, ⟨⟩, same⟩; revert same; decide)]
  rfl

/-- After such a run a call for the same destination puts the other source behind what has been
copied, and cuts the two to the size of the source: the first bytes stay those of the file copied
before. -/
theorem copyfile_run_again_destination (files : Files) {calls : List Call}
    (guarded : Throughout Session.step NewNames (copyfileStateAlloc files) calls)
    {src dst : PathName} (asks : Asks call src dst) :
    let s := calls.foldl Session.step (copyfileStateAlloc files)
    ∀ i k, s.files.inode src = some i → s.files.inode dst = some k → i ≠ k →
      2 * (s.files.content i).length + 2 ≤ call.fuel → ¬ Again src s.src → Again dst s.dst →
        ∃ after, copyfile s call = some (0, after) ∧ after.files = s.files.set k
          ((s.files.content k ++ s.files.content i).take (s.files.content i).length) := by
  intro s i k found there apart enough srcNew ⟨last, named, same⟩
  rcases settled_run files guarded with ⟨files, fresh⟩ | ⟨lastSrc, lastDst, j, l, copied⟩
  · have none : s.dst = none := congrArg Session.dst fresh
    rw [none] at named
    cases named
  · have kept := copied.dstName
    change s.dst = some lastDst at kept
    rw [named] at kept
    cases kept
    cases (PathName.same_iff asks.dstFits copied.dstFits).mp same
    have inode := copied.dstInode
    rw [there] at inode
    cases inode
    exact copied.again_destination asks srcNew same found apart enough

theorem copyfile_run_again_destination_once :
    ∃ after, copyfile (Session.step (copyfileStateAlloc twoFiles) (plainCall fileA fileC))
        (plainCall fileB fileC) = some (0, after) ∧ after.files.content 2 = [1, 2, 3] := by
  obtain ⟨after, ran, joined⟩ := copyfile_run_again_destination twoFiles plainCall_guarded
    (plainCall_asks fileB fileC (by decide) (by decide)) 1 2 rfl rfl (by decide)
    (by decide) (by rintro ⟨last, ⟨⟩, same⟩; revert same; decide) ⟨fileC, rfl, rfl⟩
  refine ⟨after, ran, ?_⟩
  rw [joined]
  rfl

end LegacySupport.Copyfile
