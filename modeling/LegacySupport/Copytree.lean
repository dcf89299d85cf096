import LegacySupport.CopytreeCore

/-!
What any run of `copytree` does: which entries it comes to, in which order, what it does and says
for each of them, and what makes it stop.
-/

namespace LegacySupport.Copytree

variable {system : System}

/-! ## What is answered -/

def Genuine (system : System) (log : List Event) : Event → Prop
  | .allocate path given => given = system.allocates log path
  | .status what stage path dstfile answer =>
      ∃ status, system.status = some status ∧ answer = status log what stage path dstfile
  | .copy path dstfile _ copied => copied = system.copyfile log path dstfile
  | .cleanup dstfile opened => opened = system.opens log dstfile
  | .failed _ => True

def Answered (system : System) : List Event → List Event → Prop
  | _, [] => True
  | log, event :: events => Genuine system log event ∧ Answered system (log ++ [event]) events

theorem Answered.append {log first second : List Event} (before : Answered system log first)
    (after : Answered system (log ++ first) second) : Answered system log (first ++ second) := by
  induction first generalizing log with
  | nil => rwa [List.append_nil] at after
  | cons event events ih =>
      refine ⟨before.1, ih before.2 ?_⟩
      rwa [List.append_assoc, List.singleton_append]

/-! ## What makes it stop -/

/-- The answer to quit, but for the last callback of a directory; want of memory; and any failure
where there is no callback. -/
def Decisive (system : System) : Event → Prop
  | .allocate _ given => given = false
  | .status what stage _ _ answer =>
      answer = copyfileQuit ∧ ¬ (what = .recurseDirCleanup ∧ stage = .finish)
  | .copy _ _ _ copied => system.status = none ∧ copied = false
  | .cleanup _ opened => system.status = none ∧ opened = false
  | .failed _ => system.status = none

inductive Tells (system : System) : Int → List Event → Prop
  | goes {events : List Event} (none : ∀ event ∈ events, ¬ Decisive system event) :
      Tells system 0 events
  | stops {front : List Event} {last : Event} (none : ∀ event ∈ front, ¬ Decisive system event)
      (decisive : Decisive system last) : Tells system (-1) (front ++ [last])

theorem Tells.after {retval : Int} {first rest : List Event}
    (none : ∀ event ∈ first, ¬ Decisive system event) (tells : Tells system retval rest) :
    Tells system retval (first ++ rest) := by
  have both : ∀ {events : List Event}, (∀ event ∈ events, ¬ Decisive system event) →
      ∀ event ∈ first ++ events, ¬ Decisive system event := by
    intro events others event member
    rcases List.mem_append.mp member with early | late
    · exact none event early
    · exact others event late
  cases tells with
  | goes others => exact .goes (both others)
  | stops others decisive =>
      rw [← List.append_assoc]
      exact .stops (both others) decisive

/-! ## What is told for an entry -/

/-- The protocol for an entry that is copied: the callback, if there is one, is asked before, and
told after. -/
inductive CopyTold (system : System) (what : What) (delayAce : Bool) (path dstfile : Path) :
    List Event → Prop
  | silent (absent : system.status = none) (copied : Bool) :
      CopyTold system what delayAce path dstfile [.copy path dstfile delayAce copied]
  | refused (answer : Int) (refusal : answer = copyfileSkip ∨ answer = copyfileQuit) :
      CopyTold system what delayAce path dstfile [.status what .start path dstfile answer]
  | told (before after : Int) (copied : Bool) (asked : before ≠ copyfileSkip)
      (quit : before ≠ copyfileQuit) :
      CopyTold system what delayAce path dstfile
        [.status what .start path dstfile before, .copy path dstfile delayAce copied,
          .status what (if copied then .finish else .err) path dstfile after]

inductive CleanupTold (system : System) (path dstfile : Path) : List Event → Prop
  | silent (absent : system.status = none) (opened : Bool) :
      CleanupTold system path dstfile [.cleanup dstfile opened]
  | refused (answer : Int) (refusal : answer = copyfileSkip ∨ answer = copyfileQuit) :
      CleanupTold system path dstfile [.status .recurseDirCleanup .start path dstfile answer]
  | told (before after : Int) (opened : Bool) (asked : before ≠ copyfileSkip)
      (quit : before ≠ copyfileQuit) :
      CleanupTold system path dstfile
        [.status .recurseDirCleanup .start path dstfile before, .cleanup dstfile opened,
          .status .recurseDirCleanup (if opened then .finish else .err) path dstfile after]

inductive ErrorTold (system : System) (path dstfile : Path) : List Event → Prop
  | silent (absent : system.status = none) : ErrorTold system path dstfile [.failed path]
  | told (answer : Int) :
      ErrorTold system path dstfile
        [.failed path, .status .recurseError .err path dstfile answer]

def KindTold (system : System) (ent : FtsEnt) (dstfile : Path) (events : List Event) : Prop :=
  match ent.info with
  | .d => CopyTold system .recurseDir true ent.path dstfile events
  | .f => CopyTold system .recurseFile false ent.path dstfile events
  | .dp => CleanupTold system ent.path dstfile events
  | .error => ErrorTold system ent.path dstfile events

inductive Told (system : System) (ent : FtsEnt) (dstfile : Path) : List Event → Prop
  | unallocated : Told system ent dstfile [.allocate ent.path false]
  | allocated {events : List Event} (told : KindTold system ent dstfile events) :
      Told system ent dstfile (.allocate ent.path true :: events)

def skipTold (path dstfile : Path) : Event := .status .recurseDir .start path dstfile copyfileSkip

structure Handles (system : System) (path dstfile : Path) (log : List Event) (handled : Handled)
    (events : List Event) : Prop where
  answered : Answered system log events
  log : handled.log = log ++ events
  tells : Tells system handled.retval events
  goes : handled.skips = true → handled.retval = 0
  skips : ∀ other copy, skipTold other copy ∈ events ↔
    other = path ∧ copy = dstfile ∧ handled.skips = true

theorem decisive_status {what : What} {stage : Stage} {path dstfile : Path} {answer : Int}
    (other : ¬ (what = .recurseDirCleanup ∧ stage = .finish)) :
    Decisive system (.status what stage path dstfile answer) ↔ answer = copyfileQuit :=
  ⟨And.left, fun quit => ⟨quit, other⟩⟩

theorem none_decisive_nil : ∀ event ∈ ([] : List Event), ¬ Decisive system event := by
  intro event member
  cases member

theorem none_decisive_append {events : List Event} {last : Event}
    (none : ∀ event ∈ events, ¬ Decisive system event) (other : ¬ Decisive system last) :
    ∀ event ∈ events ++ [last], ¬ Decisive system event := by
  intro event member
  rcases List.mem_append.mp member with early | late
  · exact none event early
  · rw [List.mem_singleton.mp late]
    exact other

theorem Handles.goOn {path dstfile : Path} {log whole events : List Event}
    (same : whole = log ++ events) (answered : Answered system log events)
    (none : ∀ event ∈ events, ¬ Decisive system event)
    (unskipped : ∀ other copy, skipTold other copy ∉ events) :
    Handles system path dstfile log (goOn whole) events where
  log := same
  answered := answered
  tells := .goes none
  goes := by rintro ⟨⟩
  skips other copy := ⟨fun told => absurd told (unskipped other copy), by rintro ⟨-, -, ⟨⟩⟩⟩

theorem Handles.stop {path dstfile : Path} {log whole events : List Event} {last : Event}
    (same : whole = log ++ (events ++ [last])) (answered : Answered system log (events ++ [last]))
    (none : ∀ event ∈ events, ¬ Decisive system event) (decisive : Decisive system last)
    (unskipped : ∀ other copy, skipTold other copy ∉ events ++ [last]) :
    Handles system path dstfile log (stop whole) (events ++ [last]) where
  log := same
  answered := answered
  tells := .stops none decisive
  goes := by rintro ⟨⟩
  skips other copy := ⟨fun told => absurd told (unskipped other copy), by rintro ⟨-, -, ⟨⟩⟩⟩

theorem Handles.quit {log whole events : List Event} {what : What} {stage : Stage}
    {path dstfile : Path} {answer : Int}
    (same : whole = log ++ (events ++ [.status what stage path dstfile answer]))
    (answered : Answered system log (events ++ [.status what stage path dstfile answer]))
    (none : ∀ event ∈ events, ¬ Decisive system event)
    (other : ¬ (what = .recurseDirCleanup ∧ stage = .finish))
    (unskipped : ∀ other copy,
      skipTold other copy ∉ events ++ [.status what stage path dstfile answer]) :
    Handles system path dstfile log
      (if answer = copyfileQuit then Copytree.stop whole else Copytree.goOn whole)
      (events ++ [.status what stage path dstfile answer]) := by
  split
  next quit => exact .stop same answered none ((decisive_status other).mpr quit) unskipped
  next going =>
    exact .goOn same answered
      (none_decisive_append none fun quit => going ((decisive_status other).mp quit)) unskipped

theorem Handles.skip {what : What} {path dstfile : Path} {log : List Event}
    (answered : Answered system log [.status what .start path dstfile copyfileSkip]) :
    Handles system path dstfile log
      ⟨0, decide (what = .recurseDir), log ++ [.status what .start path dstfile copyfileSkip]⟩
      [.status what .start path dstfile copyfileSkip] where
  log := rfl
  answered := answered
  tells := by
    have fine : ¬ Decisive system (.status what .start path dstfile copyfileSkip) :=
      mt (decisive_status (by rintro ⟨-, ⟨⟩⟩)).mp (by decide)
    exact .goes (none_decisive_append none_decisive_nil fine)
  goes _ := rfl
  skips other copy := by
    rw [List.mem_singleton, skipTold, Event.status.injEq, decide_eq_true_iff]
    constructor
    · rintro ⟨directory, -, rfl, rfl, -⟩
      exact ⟨rfl, rfl, directory.symm⟩
    · rintro ⟨rfl, rfl, directory⟩
      exact ⟨directory.symm, rfl, rfl, rfl, rfl⟩

theorem Handles.allocated {path dstfile : Path} {log : List Event} {handled : Handled}
    {events : List Event} (given : system.allocates log path = true)
    (handles : Handles system path dstfile (log ++ [.allocate path true]) handled events) :
    Handles system path dstfile log handled (.allocate path true :: events) where
  log := by rw [handles.log, List.append_assoc, List.singleton_append]
  answered := ⟨given.symm, handles.answered⟩
  tells := handles.tells.after (none_decisive_append none_decisive_nil (by rintro ⟨⟩))
  goes := handles.goes
  skips other copy := by
    rw [← handles.skips, List.mem_cons]
    exact or_iff_right (by rintro ⟨⟩)

theorem handleError_ends (system : System) (path dstfile : Path) (log : List Event) :
    ∃ events, ErrorTold system path dstfile events ∧
      Handles system path dstfile log (handleError system path dstfile log) events := by
  unfold handleError ask
  split
  next absent =>
    refine ⟨[.failed path], .silent absent,
      .stop rfl ?_ none_decisive_nil absent (by simp [skipTold])⟩
    exact ⟨trivial, trivial⟩
  next status given =>
    have early : ∀ event ∈ [Event.failed path], ¬ Decisive system event :=
      none_decisive_append none_decisive_nil (by rw [Decisive, given]; rintro ⟨⟩)
    refine ⟨_, .told _, .quit (List.append_assoc _ _ _) ?_ early (by decide) (by simp [skipTold])⟩
    exact ⟨trivial, ⟨status, given, rfl⟩, trivial⟩

theorem not_decisive_of_callback {status : List Event → What → Stage → Path → Path → Int}
    (given : system.status = some status) :
    (∀ path dstfile delayAce copied, ¬ Decisive system (.copy path dstfile delayAce copied)) ∧
      ∀ dstfile opened, ¬ Decisive system (.cleanup dstfile opened) := by
  constructor
  · rintro path dstfile delayAce copied ⟨none, -⟩
    rw [given] at none
    cases none
  · rintro dstfile opened ⟨none, -⟩
    rw [given] at none
    cases none

theorem handleCopy_ends (system : System) {what : What} (copies : what ≠ .recurseDirCleanup)
    (delayAce : Bool) (path dstfile : Path) (log : List Event) :
    ∃ events, CopyTold system what delayAce path dstfile events ∧
      Handles system path dstfile log (handleCopy system what delayAce path dstfile log)
        events := by
  have other : ∀ stage, ¬ (what = .recurseDirCleanup ∧ stage = Stage.finish) :=
    fun stage both => copies both.1
  unfold handleCopy ask
  split
  next absent =>
    dsimp only
    cases copied : system.copyfile log path dstfile with
    | true =>
        have fine : ¬ Decisive system (.copy path dstfile delayAce true) := by
          rintro ⟨-, ⟨⟩⟩
        exact ⟨_, .silent absent true, .goOn rfl ⟨copied.symm, trivial⟩
          (none_decisive_append none_decisive_nil fine) (by simp [skipTold])⟩
    | false =>
        refine ⟨_, .silent absent false, .stop rfl ?_ none_decisive_nil ⟨absent, rfl⟩
          (by simp [skipTold])⟩
        exact ⟨copied.symm, trivial⟩
  next status given =>
    dsimp only
    have copying := (not_decisive_of_callback given).1 path dstfile delayAce
    generalize answer : status log what .start path dstfile = before
    have start : Genuine system log (.status what .start path dstfile before) :=
      ⟨status, given, answer.symm⟩
    split
    next skip =>
      subst skip
      exact ⟨_, .refused copyfileSkip (Or.inl rfl), .skip ⟨start, trivial⟩⟩
    next asked =>
      split
      next quit =>
        refine ⟨_, .refused before (Or.inr quit), .stop rfl ?_ none_decisive_nil
          ((decisive_status (other .start)).mpr quit) (by simp [skipTold, Ne.symm asked])⟩
        exact ⟨start, trivial⟩
      next going =>
        have early : ∀ copied, ∀ event ∈ [Event.status what .start path dstfile before] ++
            [.copy path dstfile delayAce copied], ¬ Decisive system event := fun copied =>
          none_decisive_append (none_decisive_append none_decisive_nil
            fun quits => going ((decisive_status (other .start)).mp quits)) (copying copied)
        cases copied : system.copyfile (log ++ [.status what .start path dstfile before]) path
            dstfile with
        | true =>
            refine ⟨_, .told before _ true asked going, .quit (by simp) ?_ (early true)
              (other .finish) (by simp [skipTold, Ne.symm asked])⟩
            exact ⟨start, copied.symm, ⟨status, given, rfl⟩, trivial⟩
        | false =>
            refine ⟨_, .told before _ false asked going, .quit (by simp) ?_ (early false)
              (other .err) (by simp [skipTold, Ne.symm asked])⟩
            exact ⟨start, copied.symm, ⟨status, given, rfl⟩, trivial⟩

theorem handleCleanup_ends (system : System) (path dstfile : Path) (log : List Event) :
    ∃ events, CleanupTold system path dstfile events ∧
      Handles system path dstfile log (handleCleanup system path dstfile log) events := by
  unfold handleCleanup ask
  split
  next absent =>
    dsimp only
    cases opened : system.opens log dstfile with
    | true =>
        have fine : ¬ Decisive system (.cleanup dstfile true) := by
          rintro ⟨-, ⟨⟩⟩
        exact ⟨_, .silent absent true, .goOn rfl ⟨opened.symm, trivial⟩
          (none_decisive_append none_decisive_nil fine) (by simp [skipTold])⟩
    | false =>
        refine ⟨_, .silent absent false, .stop rfl ?_ none_decisive_nil ⟨absent, rfl⟩
          (by simp [skipTold])⟩
        exact ⟨opened.symm, trivial⟩
  next status given =>
    dsimp only
    have cleaning := (not_decisive_of_callback given).2 dstfile
    generalize answer : status log .recurseDirCleanup .start path dstfile = before
    have start : Genuine system log (.status .recurseDirCleanup .start path dstfile before) :=
      ⟨status, given, answer.symm⟩
    have asked : Decisive system (.status .recurseDirCleanup .start path dstfile before) ↔
        before = copyfileQuit := decisive_status (by decide)
    split
    next quit =>
      refine ⟨_, .refused before (Or.inr quit), .stop rfl ?_ none_decisive_nil (asked.mpr quit)
        (by simp [skipTold])⟩
      exact ⟨start, trivial⟩
    next going =>
      have first : ∀ event ∈ [] ++ [Event.status .recurseDirCleanup .start path dstfile before],
          ¬ Decisive system event :=
        none_decisive_append none_decisive_nil fun quits => going (asked.mp quits)
      split
      next skip =>
        exact ⟨_, .refused before (Or.inl skip), .goOn rfl ⟨start, trivial⟩ first
          (by simp [skipTold])⟩
      next onward =>
        cases opened : system.opens
            (log ++ [.status .recurseDirCleanup .start path dstfile before]) dstfile with
        | true =>
            refine ⟨_, .told before _ true onward going, .goOn (by simp)
              ⟨start, opened.symm, ⟨status, given, rfl⟩, trivial⟩ ?_ (by simp [skipTold])⟩
            refine none_decisive_append (none_decisive_append first (cleaning true)) ?_
            rintro ⟨-, last⟩
            exact last ⟨rfl, rfl⟩
        | false =>
            refine ⟨_, .told before _ false onward going, .quit (by simp) ?_
              (none_decisive_append first (cleaning false)) (by decide) (by simp [skipTold])⟩
            exact ⟨start, opened.symm, ⟨status, given, rfl⟩, trivial⟩

variable {dstfile : Path → Path}

theorem handle_ends (system : System) (dstfile : Path → Path) (ent : FtsEnt) (log : List Event) :
    ∃ events, Told system ent (dstfile ent.path) events ∧
      Handles system ent.path (dstfile ent.path) log (handle system dstfile ent log) events := by
  unfold handle
  dsimp only
  cases given : system.allocates log ent.path with
  | false =>
      refine ⟨_, .unallocated, .stop rfl ?_ none_decisive_nil rfl (by simp [skipTold])⟩
      exact ⟨given.symm, trivial⟩
  | true =>
      rw [if_neg (by decide)]
      suffices kind : ∃ events, KindTold system ent (dstfile ent.path) events ∧
          Handles system ent.path (dstfile ent.path) (log ++ [.allocate ent.path true]) _ events by
        obtain ⟨events, told, handles⟩ := kind
        exact ⟨_, .allocated told, handles.allocated given⟩
      unfold KindTold
      cases ent.info with
      | d => exact handleCopy_ends system (by decide) true ent.path (dstfile ent.path) _
      | f => exact handleCopy_ends system (by decide) false ent.path (dstfile ent.path) _
      | dp => exact handleCleanup_ends system ent.path (dstfile ent.path) _
      | error => exact handleError_ends system ent.path (dstfile ent.path) _

/-! ## The walk -/

inductive Walk.Taken : Walk → List FtsEnt → List Path → Prop
  | done : Taken .done [] []
  | entry {ent : FtsEnt} {next : Walk} {ents : List FtsEnt} {skipped : List Path}
      (more : Taken next ents skipped) : Taken (.entry ent next) (ent :: ents) skipped
  | enter {path : Path} {enter skip : Walk} {ents : List FtsEnt} {skipped : List Path}
      (more : Taken enter ents skipped) :
      Taken (.directory path enter skip) (⟨.d, path⟩ :: ents) skipped
  | skip {path : Path} {enter skip : Walk} {ents : List FtsEnt} {skipped : List Path}
      (more : Taken skip ents skipped) :
      Taken (.directory path enter skip) (⟨.d, path⟩ :: ents) (path :: skipped)

theorem Walk.taken (walk : Walk) : ∃ ents, walk.Taken ents [] := by
  induction walk with
  | done => exact ⟨[], .done⟩
  | entry ent next ih =>
      obtain ⟨ents, more⟩ := ih
      exact ⟨ent :: ents, .entry more⟩
  | directory path enter skip ih _ =>
      obtain ⟨ents, more⟩ := ih
      exact ⟨⟨.d, path⟩ :: ents, .enter more⟩

def Walk.Leaves : Walk → Prop
  | .done => True
  | .entry ent next => ent.info ≠ .d ∧ next.Leaves
  | .directory _ enter skip => enter.Leaves ∧ skip.Leaves

theorem Forest.walk_leaves (forest : Forest) : ∀ (parent : Path) {next : Walk}, next.Leaves →
    (forest.walk parent next).Leaves := by
  induction forest with
  | nil =>
      intro parent next leaves
      exact leaves
  | file name rest ih | error name rest ih =>
      intro parent next leaves
      exact ⟨by rintro ⟨⟩, ih parent leaves⟩
  | unreadable name rest ih =>
      intro parent next leaves
      exact ⟨⟨by rintro ⟨⟩, ih parent leaves⟩, ⟨by rintro ⟨⟩, ih parent leaves⟩⟩
  | directory name contents rest insideIh ih =>
      intro parent next leaves
      have after : Walk.Leaves (.entry ⟨.dp, ftsAppend parent name⟩ (rest.walk parent next)) :=
        ⟨by rintro ⟨⟩, ih parent leaves⟩
      exact ⟨insideIh _ after, after⟩

theorem Root.walk_leaves (src : Path) (root : Root) : (root.walk src).Leaves := by
  cases root with
  | file | error => exact ⟨by rintro ⟨⟩, trivial⟩
  | unreadable => exact ⟨⟨by rintro ⟨⟩, trivial⟩, ⟨by rintro ⟨⟩, trivial⟩⟩
  | directory contents =>
      have after : Walk.Leaves (.entry ⟨.dp, src⟩ .done) := ⟨by rintro ⟨⟩, trivial⟩
      exact ⟨contents.walk_leaves src after, after⟩

theorem CopyTold.skip {what : What} {delayAce : Bool} {path dstfile other copy : Path}
    {events : List Event} (told : CopyTold system what delayAce path dstfile events)
    (member : skipTold other copy ∈ events) : what = .recurseDir := by
  cases told with
  | silent absent copied => simp [skipTold] at member
  | refused answer refusal =>
      rw [List.mem_singleton, skipTold, Event.status.injEq] at member
      exact member.1.symm
  | told before after copied asked quit =>
      cases copied with
      | true => simp_all [skipTold]
      | false => simp_all [skipTold]

theorem Told.skip {ent : FtsEnt} {dstfile other copy : Path} {events : List Event}
    (told : Told system ent dstfile events) (member : skipTold other copy ∈ events) :
    ent.info = .d := by
  cases told with
  | unallocated => simp [skipTold] at member
  | allocated told =>
      have later := List.mem_of_ne_of_mem (by simp [skipTold]) member
      unfold KindTold at told
      split at told
      next directory => exact directory
      next => cases told.skip later
      next => cases told <;> simp [skipTold] at later
      next => cases told <;> simp [skipTold] at later

/-- What the loop does: it comes to the first of the entries that `fts` would give, to all of them
if nothing decisive is told, and tells for each of them what it has to. -/
structure RunEnd (system : System) (dstfile : Path → Path) (log : List Event) (retval : Int)
    (read : List FtsEnt) (groups : List (List Event)) (whole : List FtsEnt)
    (skipped : List Path) : Prop where
  first : read <+: whole
  all : retval = 0 → read = whole
  skips : ∀ path, path ∈ skipped ↔ skipTold path (dstfile path) ∈ groups.flatten
  told : List.Forall₂ (fun ent events => Told system ent (dstfile ent.path) events) read groups
  answered : Answered system log groups.flatten
  tells : Tells system retval groups.flatten

theorem Tells.none_decisive {retval : Int} {events : List Event}
    (tells : Tells system retval events) (going : retval ≠ -1) :
    ∀ event ∈ events, ¬ Decisive system event := by
  cases tells with
  | goes none => exact none
  | stops none decisive => exact absurd rfl going

theorem RunEnd.cons {retval : Int} {ent : FtsEnt} {log events : List Event}
    {handled : Handled} {read whole : List FtsEnt} {groups : List (List Event)}
    {skipped more : List Path} (told : Told system ent (dstfile ent.path) events)
    (handles : Handles system ent.path (dstfile ent.path) log handled events)
    (going : handled.retval ≠ -1)
    (skips : ∀ path, path ∈ more ↔ path ∈ skipped ∨ path = ent.path ∧ handled.skips = true)
    (run : RunEnd system dstfile handled.log retval read groups whole skipped) :
    RunEnd system dstfile log retval (ent :: read) (events :: groups) (ent :: whole) more where
  first := (List.prefix_cons_inj ent).mpr run.first
  all zero := by rw [run.all zero]
  skips path := by
    rw [List.flatten_cons, List.mem_append, skips, run.skips, handles.skips, or_comm]
    refine or_congr_left ⟨?_, fun both => ⟨both.1, both.2.2⟩⟩
    rintro ⟨rfl, set⟩
    exact ⟨rfl, rfl, set⟩
  told := .cons told run.told
  answered := by
    rw [List.flatten_cons]
    exact handles.answered.append (handles.log ▸ run.answered)
  tells := by
    rw [List.flatten_cons]
    exact run.tells.after (handles.tells.none_decisive going)

theorem RunEnd.last {ent : FtsEnt} {log events : List Event} {handled : Handled}
    {whole : List FtsEnt} (told : Told system ent (dstfile ent.path) events)
    (handles : Handles system ent.path (dstfile ent.path) log handled events)
    (stops : handled.retval = -1) :
    RunEnd system dstfile log (-1) [ent] [events] (ent :: whole) [] where
  first := (List.prefix_cons_inj ent).mpr List.nil_prefix
  all := by rintro ⟨⟩
  skips path := by
    rw [List.flatten_singleton, handles.skips]
    constructor
    · rintro ⟨⟩
    · rintro ⟨-, -, set⟩
      cases stops.symm.trans (handles.goes set)
  told := .cons told .nil
  answered := by
    rw [List.flatten_singleton]
    exact handles.answered
  tells := by
    rw [List.flatten_singleton, ← stops]
    exact handles.tells

theorem RunEnd.done (log : List Event) : RunEnd system dstfile log 0 [] [] [] [] where
  first := List.prefix_refl _
  all _ := rfl
  skips path := by simp
  told := .nil
  answered := trivial
  tells := .goes none_decisive_nil

theorem readLoop_runEnd (system : System) (dstfile : Path → Path) (walk : Walk) :
    ∀ (log : List Event) (ents : List FtsEnt), walk.Leaves →
    ∃ retval read groups whole skipped,
      readLoop system dstfile walk log ents = (retval, log ++ groups.flatten, ents ++ read) ∧
        walk.Taken whole skipped ∧
        RunEnd system dstfile log retval read groups whole skipped := by
  induction walk with
  | done =>
      intro log ents leaves
      exact ⟨0, [], [], [], [], by simp [readLoop], .done, .done log⟩
  | entry ent next ih =>
      intro log ents leaves
      obtain ⟨events, told, handles⟩ := handle_ends system dstfile ent log
      rw [readLoop]
      split
      next stops =>
        obtain ⟨whole, taken⟩ := next.taken
        exact ⟨-1, [ent], [events], ent :: whole, [], by rw [handles.log]; simp, .entry taken,
          .last told handles stops⟩
      next going =>
        obtain ⟨retval, read, groups, whole, skipped, ran, taken, run⟩ :=
          ih (handle system dstfile ent log).log (ents ++ [ent]) leaves.2
        have unskipped : ¬ (handle system dstfile ent log).skips = true := fun set =>
          leaves.1 (told.skip ((handles.skips _ _).mpr ⟨rfl, rfl, set⟩))
        refine ⟨retval, ent :: read, events :: groups, ent :: whole, skipped, ?_, .entry taken,
          run.cons told handles going fun path => (or_iff_left fun both => unskipped both.2).symm⟩
        rw [ran, handles.log]
        simp
  | directory path enter skip enterIh skipIh =>
      intro log ents leaves
      obtain ⟨events, told, handles⟩ := handle_ends system dstfile ⟨.d, path⟩ log
      rw [readLoop]
      split
      next stops =>
        obtain ⟨whole, taken⟩ := enter.taken
        exact ⟨-1, [⟨.d, path⟩], [events], ⟨.d, path⟩ :: whole, [], by rw [handles.log]; simp,
          .enter taken, .last told handles stops⟩
      next going =>
        split
        next set =>
          obtain ⟨retval, read, groups, whole, skipped, ran, taken, run⟩ :=
            skipIh (handle system dstfile ⟨.d, path⟩ log).log (ents ++ [⟨.d, path⟩]) leaves.2
          refine ⟨retval, ⟨.d, path⟩ :: read, events :: groups, ⟨.d, path⟩ :: whole,
            path :: skipped, ?_, .skip taken, run.cons told handles going fun other => ?_⟩
          · rw [ran, handles.log]
            simp
          · rw [List.mem_cons, or_comm, and_iff_left set]
        next unset =>
          obtain ⟨retval, read, groups, whole, skipped, ran, taken, run⟩ :=
            enterIh (handle system dstfile ⟨.d, path⟩ log).log (ents ++ [⟨.d, path⟩]) leaves.1
          refine ⟨retval, ⟨.d, path⟩ :: read, events :: groups, ⟨.d, path⟩ :: whole, skipped, ?_,
            .enter taken, run.cons told handles going fun other => ?_⟩
          · rw [ran, handles.log]
            simp
          · exact (or_iff_left fun both => unset both.2).symm

/-! ## The hierarchy -/

/-- What is visited under a directory: each directory before and after its contents, which are left
out where it has been skipped. -/
inductive Forest.Visits : Path → Forest → List FtsEnt → List Path → Prop
  | nil {parent : Path} : Visits parent .nil [] []
  | file {parent : Path} {name : Name} {rest : Forest} {ents : List FtsEnt} {skipped : List Path}
      (more : Visits parent rest ents skipped) :
      Visits parent (.file name rest) (⟨.f, ftsAppend parent name⟩ :: ents) skipped
  | error {parent : Path} {name : Name} {rest : Forest} {ents : List FtsEnt} {skipped : List Path}
      (more : Visits parent rest ents skipped) :
      Visits parent (.error name rest) (⟨.error, ftsAppend parent name⟩ :: ents) skipped
  | unreadable {parent : Path} {name : Name} {rest : Forest} {ents : List FtsEnt}
      {skipped : List Path}
      (more : Visits parent rest ents skipped) :
      Visits parent (.unreadable name rest)
        (⟨.d, ftsAppend parent name⟩ :: ⟨.error, ftsAppend parent name⟩ :: ents) skipped
  | unreadableSkipped {parent : Path} {name : Name} {rest : Forest} {ents : List FtsEnt}
      {skipped : List Path} (more : Visits parent rest ents skipped) :
      Visits parent (.unreadable name rest)
        (⟨.d, ftsAppend parent name⟩ :: ⟨.dp, ftsAppend parent name⟩ :: ents)
        (ftsAppend parent name :: skipped)
  | directory {parent : Path} {name : Name} {contents rest : Forest} {inner ents : List FtsEnt}
      {innerSkipped skipped : List Path}
      (inside : Visits (ftsAppend parent name) contents inner innerSkipped)
      (more : Visits parent rest ents skipped) :
      Visits parent (.directory name contents rest)
        (⟨.d, ftsAppend parent name⟩ :: inner ++ ⟨.dp, ftsAppend parent name⟩ :: ents)
        (innerSkipped ++ skipped)
  | skipped {parent : Path} {name : Name} {contents rest : Forest} {ents : List FtsEnt}
      {skipped : List Path} (more : Visits parent rest ents skipped) :
      Visits parent (.directory name contents rest)
        (⟨.d, ftsAppend parent name⟩ :: ⟨.dp, ftsAppend parent name⟩ :: ents)
        (ftsAppend parent name :: skipped)

inductive Root.Visits (src : Path) : Root → List FtsEnt → List Path → Prop
  | file : Visits src .file [⟨.f, src⟩] []
  | error : Visits src .error [⟨.error, src⟩] []
  | unreadable : Visits src .unreadable [⟨.d, src⟩, ⟨.error, src⟩] []
  | unreadableSkipped : Visits src .unreadable [⟨.d, src⟩, ⟨.dp, src⟩] [src]
  | directory {contents : Forest} {inner : List FtsEnt} {skipped : List Path}
      (inside : contents.Visits src inner skipped) :
      Visits src (.directory contents) (⟨.d, src⟩ :: inner ++ [⟨.dp, src⟩]) skipped
  | skipped {contents : Forest} : Visits src (.directory contents) [⟨.d, src⟩, ⟨.dp, src⟩] [src]

theorem Forest.taken_visits (forest : Forest) : ∀ (parent : Path) (next : Walk) whole skipped,
    (forest.walk parent next).Taken whole skipped →
      ∃ ents rest first last, whole = ents ++ rest ∧ skipped = first ++ last ∧
        forest.Visits parent ents first ∧ next.Taken rest last := by
  induction forest with
  | nil =>
      intro parent next whole skipped taken
      exact ⟨[], whole, [], skipped, rfl, rfl, .nil, taken⟩
  | file name rest ih =>
      intro parent next whole skipped taken
      cases taken with
      | entry more =>
          obtain ⟨ents, after, first, last, rfl, rfl, visits, taken⟩ := ih parent next _ _ more
          exact ⟨_, after, first, last, rfl, rfl, .file visits, taken⟩
  | error name rest ih =>
      intro parent next whole skipped taken
      cases taken with
      | entry more =>
          obtain ⟨ents, after, first, last, rfl, rfl, visits, taken⟩ := ih parent next _ _ more
          exact ⟨_, after, first, last, rfl, rfl, .error visits, taken⟩
  | unreadable name rest ih =>
      intro parent next whole skipped taken
      cases taken with
      | enter more =>
          cases more with
          | entry more =>
              obtain ⟨ents, after, first, last, rfl, rfl, visits, taken⟩ := ih parent next _ _ more
              exact ⟨_, after, first, last, rfl, rfl, .unreadable visits, taken⟩
      | skip more =>
          cases more with
          | entry more =>
              obtain ⟨ents, after, first, last, rfl, rfl, visits, taken⟩ := ih parent next _ _ more
              exact ⟨_, after, _, last, rfl, rfl, .unreadableSkipped visits, taken⟩
  | directory name contents rest insideIh ih =>
      intro parent next whole skipped taken
      cases taken with
      | enter more =>
          obtain ⟨inner, after, innerSkipped, last, rfl, rfl, inside, taken⟩ :=
            insideIh _ _ _ _ more
          cases taken with
          | entry more =>
              obtain ⟨ents, after, first, last, rfl, rfl, visits, taken⟩ := ih parent next _ _ more
              exact ⟨_, after, innerSkipped ++ first, last, by simp, by simp,
                .directory inside visits, taken⟩
      | skip more =>
          cases more with
          | entry more =>
              obtain ⟨ents, after, first, last, rfl, rfl, visits, taken⟩ := ih parent next _ _ more
              exact ⟨_, after, _, last, rfl, rfl, .skipped visits, taken⟩

theorem Root.taken_visits {src : Path} {root : Root} {whole : List FtsEnt} {skipped : List Path}
    (taken : (root.walk src).Taken whole skipped) : root.Visits src whole skipped := by
  cases root with
  | file =>
      cases taken with
      | entry more =>
          cases more
          exact .file
  | error =>
      cases taken with
      | entry more =>
          cases more
          exact .error
  | unreadable =>
      cases taken with
      | enter more =>
          cases more with
          | entry more =>
              cases more
              exact .unreadable
      | skip more =>
          cases more with
          | entry more =>
              cases more
              exact .unreadableSkipped
  | directory contents =>
      cases taken with
      | enter more =>
          obtain ⟨inner, after, first, last, rfl, rfl, inside, more⟩ :=
            contents.taken_visits _ _ _ _ more
          cases more with
          | entry more =>
              cases more
              rw [List.append_nil]
              exact .directory inside
      | skip more =>
          cases more with
          | entry more =>
              cases more
              exact .skipped

structure Admitted (request : Request) (src dst : Path) (dstisdir : Bool) : Prop where
  excluded : request.excluded = false
  src : request.src = some src
  dst : request.dst = some dst
  srcThere : request.srcThere = true
  dstStat : ∃ found, request.dstStat = .ok found ∧ found.getD false = dstisdir

theorem copytree_admitted {request : Request} {src dst : Path} {dstisdir : Bool}
    (admitted : Admitted request src dst dstisdir) :
    copytree system request =
      readLoop system (dstFile src dst dstisdir) (request.root.walk src) [] [] := by
  obtain ⟨found, stat, directory⟩ := admitted.dstStat
  unfold copytree
  rw [admitted.excluded, admitted.src, admitted.dst, admitted.srcThere, stat, ← directory]
  rfl

/-- Whatever the callback and the system answer, and though the answers may depend on all that has
happened: the entries come in the order of the hierarchy, without the contents of the directories
that the callback has asked to skip; each is told of as it should be; and the copy stops, and fails,
at the first event that is decisive, and goes through all of the hierarchy if there is none. -/
theorem copytree_run {request : Request} {src dst : Path} {dstisdir : Bool}
    (admitted : Admitted request src dst dstisdir) :
    ∃ retval read groups whole skipped,
      copytree system request = (retval, groups.flatten, read) ∧
        request.root.Visits src whole skipped ∧
        RunEnd system (dstFile src dst dstisdir) [] retval read groups whole skipped := by
  obtain ⟨retval, read, groups, whole, skipped, ran, taken, run⟩ :=
    readLoop_runEnd system (dstFile src dst dstisdir) (request.root.walk src) [] []
      (request.root.walk_leaves src)
  refine ⟨retval, read, groups, whole, skipped, ?_, Root.taken_visits taken, run⟩
  rw [copytree_admitted admitted, ran, List.nil_append, List.nil_append]

def quitsLate : System where
  allocates _ _ := true
  status := some fun _ what stage _ _ =>
    if what = .recurseDirCleanup ∧ stage = .finish then copyfileQuit else 0
  copyfile _ _ _ := true
  opens _ _ := true

def oneFile (src : Path) (found : Option Bool) : Request where
  excluded := false
  src := some src
  dst := some [98]
  srcThere := true
  dstStat := .ok found
  root := .directory (.file ⟨[120], by decide, by decide⟩ .nil)

theorem oneFile_admitted (src : Path) (found : Option Bool) :
    Admitted (oneFile src found) src [98] (found.getD false) :=
  ⟨rfl, rfl, rfl, rfl, found, rfl, rfl⟩

theorem copytree_run_quitsLate :
    ∃ groups whole skipped,
      copytree quitsLate (oneFile [97] none) =
        (0, groups.flatten, [⟨.d, [97]⟩, ⟨.f, [97, 47, 120]⟩, ⟨.dp, [97]⟩]) ∧
      (oneFile [97] none).root.Visits [97] whole skipped ∧
      RunEnd quitsLate (dstFile [97] [98] false) [] 0
        [⟨.d, [97]⟩, ⟨.f, [97, 47, 120]⟩, ⟨.dp, [97]⟩] groups whole skipped := by
  obtain ⟨retval, read, groups, whole, skipped, ran, visits, run⟩ :=
    @copytree_run quitsLate _ _ _ _ (oneFile_admitted [97] none)
  have returns : (copytree quitsLate (oneFile [97] none)).1 = 0 := by decide
  have reads : (copytree quitsLate (oneFile [97] none)).2.2 =
      [⟨.d, [97]⟩, ⟨.f, [97, 47, 120]⟩, ⟨.dp, [97]⟩] := by decide
  rw [ran] at returns reads
  dsimp only at returns reads
  subst returns reads
  exact ⟨groups, whole, skipped, ran, visits, run⟩

/-! ## The destinations -/

def target (src dst : Path) (dstisdir : Bool) : Path :=
  if dstisdir then dst ++ [slash] ++ src.drop (baseOffset src) else dst

def Below (src path : Path) : Prop :=
  ∃ rest, path = src ++ rest ∧ (rest = [] ∨ rest.head? = some slash)

theorem Below.append {src path : Path} (plain : src.getLast? ≠ some slash) (below : Below src path)
    (name : Name) : Below src (ftsAppend path name) := by
  obtain ⟨rest, rfl, front⟩ := below
  unfold ftsAppend
  rcases front with rfl | front
  · rw [List.append_nil, if_neg plain]
    exact ⟨slash :: name.bytes, rfl, Or.inr rfl⟩
  · obtain ⟨more, rfl⟩ := List.head?_eq_some_iff.mp front
    split
    · exact ⟨slash :: (more ++ name.bytes), by simp, Or.inr rfl⟩
    · exact ⟨slash :: (more ++ slash :: name.bytes), by simp, Or.inr rfl⟩

def BelowSlash (src path : Path) : Prop :=
  path = src ∨ ∃ (name : Name) (rest : Path), path = src ++ (name.bytes ++ rest)

theorem BelowSlash.append {src path : Path} (ended : src.getLast? = some slash)
    (below : BelowSlash src path) (name : Name) : BelowSlash src (ftsAppend path name) := by
  refine Or.inr ?_
  unfold ftsAppend
  rcases below with rfl | ⟨first, rest, rfl⟩
  · rw [if_pos ended]
    exact ⟨name, [], by simp⟩
  · split
    · exact ⟨first, rest ++ name.bytes, by simp⟩
    · exact ⟨first, rest ++ slash :: name.bytes, by simp⟩

theorem Forest.Visits.inherits {holds : Path → Prop}
    (append : ∀ parent name, holds parent → holds (ftsAppend parent name)) {parent : Path}
    {forest : Forest} {ents : List FtsEnt} {skipped : List Path}
    (visits : forest.Visits parent ents skipped) (root : holds parent) :
    ∀ ent ∈ ents, holds ent.path := by
  induction visits with
  | nil =>
      intro ent member
      cases member
  | file more ih | error more ih =>
      intro ent member
      rcases List.mem_cons.mp member with rfl | later
      · exact append _ _ root
      · exact ih root ent later
  | unreadable more ih | unreadableSkipped more ih | skipped more ih =>
      intro ent member
      rcases List.mem_cons.mp member with rfl | later
      · exact append _ _ root
      · rcases List.mem_cons.mp later with rfl | after
        · exact append _ _ root
        · exact ih root ent after
  | directory inside more insideIh ih =>
      intro ent member
      rcases List.mem_cons.mp member with rfl | later
      · exact append _ _ root
      · rcases List.mem_append.mp later with inner | after
        · exact insideIh (append _ _ root) ent inner
        · rcases List.mem_cons.mp after with rfl | rest
          · exact append _ _ root
          · exact ih root ent rest

theorem Root.Visits.inherits {holds : Path → Prop} {src : Path} {root : Root}
    {ents : List FtsEnt} {skipped : List Path} (visits : root.Visits src ents skipped)
    (append : ∀ parent name, holds parent → holds (ftsAppend parent name)) (initial : holds src) :
    ∀ ent ∈ ents, holds ent.path := by
  cases visits with
  | file | error =>
      intro ent member
      rw [List.mem_singleton.mp member]
      exact initial
  | unreadable | unreadableSkipped | skipped =>
      intro ent member
      rcases List.mem_pair.mp member with rfl | rfl
      · exact initial
      · exact initial
  | directory inside =>
      intro ent member
      rcases List.mem_cons.mp member with rfl | later
      · exact initial
      · rcases List.mem_append.mp later with inner | last
        · exact inside.inherits append initial ent inner
        · rw [List.mem_singleton.mp last]
          exact initial

theorem dstFile_append (src dst rest : Path) (dstisdir : Bool) :
    dstFile src dst dstisdir (src ++ rest) = target src dst dstisdir ++ rest := by
  unfold dstFile target
  cases dstisdir with
  | false => simp
  | true =>
      have within : baseOffset src ≤ src.length := Nat.sub_le _ _
      simp only [if_true]
      rw [List.drop_append_of_le_length within, List.append_assoc _ (src.drop _)]

theorem told_copy {ent : FtsEnt} {dstfile path copy : Path} {events : List Event}
    {delayAce : Bool} {copied : Bool} (told : Told system ent dstfile events)
    (member : Event.copy path copy delayAce copied ∈ events) :
    path = ent.path ∧ copy = dstfile := by
  cases told with
  | unallocated => simp at member
  | allocated told =>
      have later := List.mem_of_ne_of_mem (by simp) member
      unfold KindTold at told
      split at told
      · cases told <;> simp at later <;> exact ⟨later.1, later.2.1⟩
      · cases told <;> simp at later <;> exact ⟨later.1, later.2.1⟩
      · cases told <;> simp at later
      · cases told <;> simp at later

theorem told_of_mem {read : List FtsEnt} {groups : List (List Event)}
    (told : List.Forall₂ (fun ent events => Told system ent (dstfile ent.path) events) read groups)
    {events : List Event} (member : events ∈ groups) :
    ∃ ent ∈ read, Told system ent (dstfile ent.path) events := by
  induction told with
  | nil => cases member
  | cons first rest ih =>
      rcases List.mem_cons.mp member with rfl | later
      · exact ⟨_, List.mem_cons_self, first⟩
      · obtain ⟨ent, read, told⟩ := ih later
        exact ⟨ent, List.mem_cons_of_mem _ read, told⟩

theorem copytree_copies {holds : Path → Prop} {request : Request} {src dst : Path}
    {dstisdir : Bool} (admitted : Admitted request src dst dstisdir)
    (append : ∀ parent name, holds parent → holds (ftsAppend parent name)) (initial : holds src)
    {path copy : Path} {delayAce copied : Bool}
    (member : Event.copy path copy delayAce copied ∈ (copytree system request).2.1) :
    holds path ∧ copy = dstFile src dst dstisdir path := by
  obtain ⟨retval, read, groups, whole, skipped, ran, taken, run⟩ :=
    readLoop_runEnd system (dstFile src dst dstisdir) (request.root.walk src) [] []
      (request.root.walk_leaves src)
  rw [copytree_admitted admitted, ran, List.nil_append] at member
  obtain ⟨events, grouped, event⟩ := List.mem_flatten.mp member
  obtain ⟨ent, visited, told⟩ := told_of_mem run.told grouped
  obtain ⟨rfl, rfl⟩ := told_copy told event
  exact ⟨(Root.taken_visits taken).inherits append initial ent (run.first.subset visited), rfl⟩

theorem baseOffset_ended {src : Path} (ended : src.getLast? = some slash) :
    baseOffset src = src.length := by
  obtain ⟨front, rfl⟩ := List.getLast?_eq_some_iff.mp ended
  unfold baseOffset
  rw [List.reverse_append, List.reverse_singleton, List.singleton_append,
    List.takeWhile_cons_of_neg (by simp), List.length_nil, Nat.sub_zero]

theorem target_ended {src : Path} (dst : Path) (ended : src.getLast? = some slash) :
    target src dst true = dst ++ [slash] := by
  rw [target, if_pos rfl, baseOffset_ended ended, List.drop_length, List.append_nil]

/-- In every run each copy goes to the place in the hierarchy of the destination that its source has
in its own. Where the path of the source ends in a slash, what is in the root goes into the
destination itself if that is a directory, and beside it if it is to be made: the slash is cut off
with the path. -/
theorem copytree_destinations {request : Request} {src dst : Path} {dstisdir : Bool}
    (admitted : Admitted request src dst dstisdir) {path copy : Path} {delayAce copied : Bool}
    (member : Event.copy path copy delayAce copied ∈ (copytree system request).2.1) :
    (src.getLast? ≠ some slash → ∃ rest, (rest = [] ∨ rest.head? = some slash) ∧
      path = src ++ rest ∧ copy = target src dst dstisdir ++ rest) ∧
    (src.getLast? = some slash → dstisdir = false → (path = src ∧ copy = dst) ∨
      ∃ (name : Name) (rest : Path), path = src ++ (name.bytes ++ rest) ∧
        copy = dst ++ (name.bytes ++ rest)) ∧
    (src.getLast? = some slash → dstisdir = true → (path = src ∧ copy = dst ++ [slash]) ∨
      ∃ (name : Name) (rest : Path), path = src ++ (name.bytes ++ rest) ∧
        copy = dst ++ [slash] ++ (name.bytes ++ rest)) := by
  have slashed : src.getLast? = some slash → (path = src ∧ copy = target src dst dstisdir) ∨
      ∃ (name : Name) (rest : Path), path = src ++ (name.bytes ++ rest) ∧
        copy = target src dst dstisdir ++ (name.bytes ++ rest) := by
    intro ended
    have append : ∀ parent name, BelowSlash src parent → BelowSlash src (ftsAppend parent name) :=
      fun _ name below => below.append ended name
    obtain ⟨below, same⟩ := copytree_copies admitted append (Or.inl rfl) member
    rcases below with rfl | ⟨name, rest, rfl⟩
    · have root := dstFile_append path dst [] dstisdir
      rw [List.append_nil, List.append_nil] at root
      exact Or.inl ⟨rfl, same.trans root⟩
    · exact Or.inr ⟨name, rest, rfl, by rw [same, dstFile_append]⟩
  refine ⟨fun plain => ?_, ?_, ?_⟩
  · have initial : Below src src := ⟨[], (List.append_nil src).symm, Or.inl rfl⟩
    obtain ⟨⟨rest, rfl, front⟩, same⟩ :=
      copytree_copies admitted (fun _ name below => below.append plain name) initial member
    exact ⟨rest, front, rfl, by rw [same, dstFile_append]⟩
  · rintro ended rfl
    exact slashed ended
  · rintro ended rfl
    rw [← target_ended dst ended]
    exact slashed ended

theorem copytree_destinations_oneFile :
    (∃ rest, (rest = [] ∨ rest.head? = some slash) ∧ [97, 47, 120] = [97] ++ rest ∧
      [98, 47, 120] = target [97] [98] false ++ rest) ∧
    (([97, 47, 120] : Path) = [97, 47] ∧ ([98, 120] : Path) = [98] ∨
      ∃ (name : Name) (rest : Path), ([97, 47, 120] : Path) = [97, 47] ++ (name.bytes ++ rest) ∧
        ([98, 120] : Path) = [98] ++ (name.bytes ++ rest)) ∧
    (([97, 47, 120] : Path) = [97, 47] ∧ ([98, 47, 120] : Path) = [98] ++ [slash] ∨
      ∃ (name : Name) (rest : Path), ([97, 47, 120] : Path) = [97, 47] ++ (name.bytes ++ rest) ∧
        ([98, 47, 120] : Path) = [98] ++ [slash] ++ (name.bytes ++ rest)) := by
  have plain : Event.copy [97, 47, 120] [98, 47, 120] false true ∈
      (copytree quitsLate (oneFile [97] none)).2.1 := by decide
  have ended : Event.copy [97, 47, 120] [98, 120] false true ∈
      (copytree quitsLate (oneFile [97, 47] none)).2.1 := by decide
  have inside : Event.copy [97, 47, 120] [98, 47, 120] false true ∈
      (copytree quitsLate (oneFile [97, 47] (some true))).2.1 := by decide
  exact ⟨(copytree_destinations (oneFile_admitted [97] none) plain).1 (by decide),
    (copytree_destinations (oneFile_admitted [97, 47] none) ended).2.1 rfl rfl,
    (copytree_destinations (oneFile_admitted [97, 47] (some true)) inside).2.2 rfl rfl⟩

end LegacySupport.Copytree
