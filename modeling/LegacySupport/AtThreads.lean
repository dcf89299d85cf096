import LegacySupport.AtThreadsCore

/-!
At-calls that run at once. With a directory for each thread they do not disturb each other; with the
one of the process they do, unless each ends before the next begins.
-/

namespace LegacySupport.AtThreads

open Runs

variable {Dir : Type}

/-! ## The descriptors -/

def Pc.held : Pc → Option Nat
  | .dropping oldCwd | .entering oldCwd | .calling oldCwd | .leaving oldCwd => oldCwd
  | .forgetting n | .closing n => some n
  | .start => none

/-- Besides the descriptors that there were, every thread has its own one open at most. -/
structure Table (fds : Nat → Option Dir) (s : State Dir) : Prop where
  held : ∀ i n, (s.threads i).pc.held = some n → fds n = none ∧ (s.fds n).isSome = true
  apart : ∀ i j n, (s.threads i).pc.held = some n → (s.threads j).pc.held = some n → i = j
  rest : ∀ n, (∀ i, (s.threads i).pc.held ≠ some n) → s.fds n = fds n

variable {fds : Nat → Option Dir} {s : State Dir} {i : Nat}

theorem put_pc (s : State Dir) (i j : Nat) (thread : Thread Dir) :
    ((s.put i thread).threads j).pc = if j = i then thread.pc else (s.threads j).pc := by
  by_cases same : j = i <;> simp [State.put, same]

theorem Table.keep (table : Table fds s) {thread : Thread Dir} {process : Dir}
    (held : thread.pc.held = (s.threads i).pc.held) :
    Table fds ({ s with process }.put i thread) := by
  have all : ∀ j, (({ s with process }.put i thread).threads j).pc.held =
      (s.threads j).pc.held := by
    intro j
    rw [put_pc]
    split
    next same => rw [held, same]
    next => rfl
  refine ⟨fun j n => ?_, fun j k n => ?_, fun n none => ?_⟩
  · rw [all]
    exact table.held j n
  · rw [all, all]
    exact table.apart j k n
  · exact table.rest n fun j => by
      rw [← all]
      exact none j

theorem Table.open (table : Table fds s) {thread : Thread Dir} {n : Nat} {dir : Dir}
    (free : s.fds n = none) (before : (s.threads i).pc.held = none)
    (held : thread.pc.held = some n) :
    Table fds ({ s with fds := Function.update s.fds n (some dir) }.put i thread) := by
  have unheld : ∀ j, (s.threads j).pc.held ≠ some n := by
    intro j already
    have there := (table.held j n already).2
    rw [free] at there
    cases there
  have all : ∀ j, (({ s with fds := Function.update s.fds n (some dir) }.put i thread).threads
      j).pc.held = if j = i then some n else (s.threads j).pc.held := by
    intro j
    rw [put_pc]
    split
    next => exact held
    next => rfl
  refine ⟨fun j m => ?_, fun j k m => ?_, fun m none => ?_⟩
  · rw [all]
    split
    next =>
      rintro ⟨⟩
      exact ⟨(table.rest n unheld).symm.trans free, by simp [State.put]⟩
    next =>
      intro other
      obtain ⟨initial, there⟩ := table.held j m other
      have differs : m ≠ n := by
        rintro rfl
        exact unheld j other
      exact ⟨initial, by simpa [State.put, differs] using there⟩
  · rw [all, all]
    split
    next first =>
      split
      next second => exact fun _ _ => first.trans second.symm
      next =>
        rintro ⟨⟩ other
        exact absurd other (unheld k)
    next =>
      split
      next =>
        rintro other ⟨⟩
        exact absurd other (unheld j)
      next => exact table.apart j k m
  · have differs : m ≠ n := by
      rintro rfl
      have mine := none i
      rw [all, if_pos rfl] at mine
      exact mine rfl
    have others : ∀ j, (s.threads j).pc.held ≠ some m := by
      intro j
      rcases eq_or_ne j i with rfl | other
      · rw [before]
        exact nofun
      · have := none j
        rwa [all, if_neg other] at this
    simpa [State.put, differs] using table.rest m others

theorem Table.close (table : Table fds s) {thread : Thread Dir} {n : Nat}
    (before : (s.threads i).pc.held = some n) (held : thread.pc.held = none) :
    Table fds ({ s with fds := Function.update s.fds n none }.put i thread) := by
  have all : ∀ j, (({ s with fds := Function.update s.fds n none }.put i thread).threads
      j).pc.held = if j = i then none else (s.threads j).pc.held := by
    intro j
    rw [put_pc]
    split
    next => exact held
    next => rfl
  refine ⟨fun j m => ?_, fun j k m => ?_, fun m none => ?_⟩
  · rw [all]
    split
    next => exact nofun
    next other =>
      intro still
      obtain ⟨initial, there⟩ := table.held j m still
      have differs : m ≠ n := by
        rintro rfl
        exact other (table.apart j i m still before)
      exact ⟨initial, by simpa [State.put, differs] using there⟩
  · rw [all, all]
    split
    next => exact nofun
    next =>
      split
      next => exact fun _ => nofun
      next => exact table.apart j k m
  · rcases eq_or_ne m n with rfl | differs
    · simpa [State.put] using (table.held i m before).1.symm
    · have others : ∀ j, (s.threads j).pc.held ≠ some m := by
        intro j
        rcases eq_or_ne j i with rfl | other
        · rw [before]
          exact fun same => differs (Option.some.inj same).symm
        · have := none j
          rwa [all, if_neg other] at this
      simpa [State.put, differs] using table.rest m others

theorem Table.initial (table : Table fds s) {fd : Nat} {dir : Dir} (there : fds fd = some dir) :
    s.fds fd = some dir := by
  rw [table.rest fd fun j held => ?_, there]
  rw [(table.held j fd held).1] at there
  cases there

/-! ## What is logged -/

/-- A call from a descriptor is made in its directory; another in the directory that there was to
start with, if that was kept. -/
def Right (fds : Nat → Option Dir) (start : Dir) (kept : Prop) (entry : Call × Option Dir) :
    Prop :=
  ∀ dir, entry.2 = some dir →
    match entry.1.fd with
    | some fd => ∀ named, fds fd = some named → dir = named
    | none => kept → dir = start

theorem Right.later {start : Dir} {kept later : Prop} {entry : Call × Option Dir}
    (right : Right fds start kept entry) (since : later → kept) :
    Right fds start later entry := by
  intro dir made
  have right := right dir made
  split at right
  next => exact right
  next => exact fun saved => right (since saved)

theorem right_append {start : Dir} {kept : Prop} {log : List (Call × Option Dir)}
    {last : Call × Option Dir} (earlier : ∀ entry ∈ log, Right fds start kept entry)
    (right : Right fds start kept last) : ∀ entry ∈ log ++ [last], Right fds start kept entry := by
  intro entry among
  rcases List.mem_append.mp among with before | now
  · exact earlier entry before
  · rw [List.mem_singleton.mp now]
    exact right

theorem right_unmade (start : Dir) (kept : Prop) (call : Call) :
    Right fds start kept (call, none) :=
  fun _ made => nomatch made

theorem right_from {start dir : Dir} {kept : Prop} {call : Call} {fd : Nat}
    (from_fd : call.fd = some fd) (entered : ∀ named, fds fd = some named → dir = named) :
    Right fds start kept (call, some dir) := by
  rintro _ ⟨⟩
  simp only [from_fd]
  exact entered

theorem right_direct {start dir : Dir} {kept : Prop} {call : Call} (direct : call.fd = none)
    (here : kept → dir = start) : Right fds start kept (call, some dir) := by
  rintro _ ⟨⟩
  simp only [direct]
  exact here

def Thread.pending (thread : Thread Dir) : List Call :=
  match thread.pc with
  | .leaving _ | .closing _ => thread.todo.tail
  | _ => thread.todo

def Thread.Busy (thread : Thread Dir) : Prop :=
  ∃ call rest fd, thread.todo = call :: rest ∧ call.fd = some fd

theorem Thread.idle {thread : Thread Dir} {call : Call} {rest : List Call}
    (busy : thread.pc ≠ .start → thread.Busy) (todo : thread.todo = call :: rest)
    (direct : call.fd = none) : thread.pc = .start := by
  by_contra away
  obtain ⟨other, later, fd, also, from_fd⟩ := busy away
  rw [todo] at also
  cases also
  rw [direct] at from_fd
  cases from_fd

/-! ## A directory for each thread -/

section Threads

variable {process : Dir} {own : Option Dir} {calls : List Call}

def Way (own : Option Dir) (now : Nat → Option Dir) : Option Nat → Prop
  | none => own = none
  | some n => ∃ dir, own = some dir ∧ now n = some dir

/-- What holds of a thread before its next system call. -/
def Thread.At (fds : Nat → Option Dir) (process : Dir) (own : Option Dir) (thread : Thread Dir)
    (now : Nat → Option Dir) : Prop :=
  match thread.pc with
  | .start => thread.unsaved = false → thread.own = own
  | .dropping oldCwd =>
      thread.unsaved = false → thread.own = own ∧ ∃ n, oldCwd = some n ∧
        now n = some (own.getD process)
  | .forgetting _ => thread.unsaved = false → own = none
  | .entering oldCwd => thread.unsaved = false → Way own now oldCwd
  | .calling oldCwd =>
      (∀ call rest fd named, thread.todo = call :: rest → call.fd = some fd →
        fds fd = some named → thread.own = some named) ∧
      (thread.unsaved = false → Way own now oldCwd)
  | .leaving oldCwd => thread.unsaved = false → Way own now oldCwd
  | .closing _ => thread.unsaved = false → thread.own = own

structure Thread.Good (fds : Nat → Option Dir) (process : Dir) (own : Option Dir)
    (calls : List Call) (thread : Thread Dir) (now : Nat → Option Dir) : Prop where
  right : ∀ entry ∈ thread.log, Right fds (own.getD process) (thread.unsaved = false) entry
  made : thread.log.map Prod.fst ++ thread.pending = calls
  busy : thread.pc ≠ .start → thread.Busy
  here : thread.At fds process own now

theorem Way.same {now later : Nat → Option Dir} {oldCwd : Option Nat} (way : Way own now oldCwd)
    (kept : ∀ n, oldCwd = some n → later n = now n) : Way own later oldCwd := by
  cases oldCwd with
  | none => exact way
  | some n =>
      obtain ⟨dir, known, there⟩ := way
      exact ⟨dir, known, (kept n rfl).trans there⟩

theorem Thread.Good.same {thread : Thread Dir} {now later : Nat → Option Dir}
    (good : thread.Good fds process own calls now)
    (kept : ∀ n, thread.pc.held = some n → later n = now n) :
    thread.Good fds process own calls later := by
  obtain ⟨right, made, busy, here⟩ := good
  refine ⟨right, made, busy, ?_⟩
  unfold Thread.At at here ⊢
  cases at_pc : thread.pc with
  | start => simpa only [at_pc] using here
  | dropping oldCwd =>
      simp only [at_pc] at here ⊢
      intro saved
      obtain ⟨kept_own, n, rfl, there⟩ := here saved
      exact ⟨kept_own, n, rfl, (kept n (by rw [at_pc]; rfl)).trans there⟩
  | forgetting n => simpa only [at_pc] using here
  | entering oldCwd =>
      simp only [at_pc] at here ⊢
      exact fun saved => (here saved).same fun n old => kept n (by rw [at_pc]; exact old)
  | calling oldCwd =>
      simp only [at_pc] at here ⊢
      exact ⟨here.1, fun saved =>
        (here.2 saved).same fun n old => kept n (by rw [at_pc]; exact old)⟩
  | leaving oldCwd =>
      simp only [at_pc] at here ⊢
      exact fun saved => (here saved).same fun n old => kept n (by rw [at_pc]; exact old)
  | closing n => simpa only [at_pc] using here

structure Sound (fds : Nat → Option Dir) (process : Dir) (own : Nat → Option Dir)
    (calls : Nat → List Call) (s : State Dir) : Prop where
  table : Table fds s
  unmoved : s.process = process
  good : ∀ i, (s.threads i).Good fds process (own i) (calls i) s.fds

variable {owns : Nat → Option Dir} {made : Nat → List Call}

theorem Sound.put (sound : Sound fds process owns made s) {thread : Thread Dir}
    {now : Nat → Option Dir} (table : Table fds ({ s with fds := now }.put i thread))
    (good : thread.Good fds process (owns i) (made i) now)
    (kept : ∀ n, s.fds n ≠ now n → s.fds n = none ∨ (s.threads i).pc.held = some n) :
    Sound fds process owns made ({ s with fds := now }.put i thread) where
  table := table
  unmoved := sound.unmoved
  good j := by
    rcases eq_or_ne j i with rfl | differs
    · simpa [State.put] using good
    · have same : ∀ n, (s.threads j).pc.held = some n → now n = s.fds n := by
        intro n held
        by_contra changed
        rcases kept n fun same => changed same.symm with free | mine
        · have there := (sound.table.held j n held).2
          rw [free] at there
          cases there
        · exact differs (sound.table.apart j i n held mine)
      simpa [State.put, differs] using (sound.good j).same same

theorem Sound.keep (sound : Sound fds process owns made s) {thread : Thread Dir}
    (held : thread.pc.held = (s.threads i).pc.held)
    (good : thread.Good fds process (owns i) (made i) s.fds) :
    Sound fds process owns made (s.put i thread) :=
  sound.put (sound.table.keep held) good fun _ changed => absurd rfl changed

theorem Sound.update (sound : Sound fds process owns made s) {thread : Thread Dir} {n : Nat}
    {dir : Option Dir}
    (table : Table fds ({ s with fds := Function.update s.fds n dir }.put i thread))
    (good : thread.Good fds process (owns i) (made i) (Function.update s.fds n dir))
    (own : s.fds n = none ∨ (s.threads i).pc.held = some n) :
    Sound fds process owns made ({ s with fds := Function.update s.fds n dir }.put i thread) := by
  refine sound.put table good fun m changed => ?_
  rcases eq_or_ne m n with rfl | differs
  · exact own
  · rw [Function.update_of_ne differs] at changed
    exact absurd rfl changed

section Steps

variable {call : Call} {rest : List Call} {fd : Nat} (answer : Answer)

theorem thread_start (sound : Sound fds process owns made s) (busy : (s.threads i).Busy)
    (at_pc : (s.threads i).pc = .start) :
    Sound fds process owns made (stepAtcall .thread s i (s.threads i) call fd answer) := by
  obtain ⟨right, made_eq, _, here⟩ := sound.good i
  simp only [Thread.At, at_pc] at here
  simp only [Thread.pending, at_pc] at made_eq
  simp only [stepAtcall, at_pc]
  split
  next n =>
    split
    next free =>
      rw [Option.isNone_iff_eq_none] at free
      refine sound.update (sound.table.open free (by rw [at_pc]; rfl) rfl)
        ⟨right, made_eq, fun _ => busy, fun saved => ⟨here saved, n, rfl, ?_⟩⟩ (.inl free)
      rw [Function.update_self, State.here, here saved, sound.unmoved]
    next => exact sound
  next =>
    refine sound.keep (by rw [at_pc]; rfl)
      ⟨fun entry among => ?_, made_eq, fun _ => busy, nofun⟩
    exact (right entry among).later nofun

theorem thread_dropping (sound : Sound fds process owns made s) (busy : (s.threads i).Busy)
    {oldCwd : Option Nat} (at_pc : (s.threads i).pc = .dropping oldCwd) :
    Sound fds process owns made (stepAtcall .thread s i (s.threads i) call fd answer) := by
  obtain ⟨right, made_eq, _, here⟩ := sound.good i
  simp only [Thread.At, at_pc] at here
  simp only [Thread.pending, at_pc] at made_eq
  simp only [stepAtcall, at_pc]
  cases own : (s.threads i).own with
  | none =>
      cases oldCwd with
      | none =>
          refine sound.keep (by rw [at_pc]; rfl)
            ⟨right, made_eq, fun _ => busy, fun saved => ?_⟩
          obtain ⟨_, n, none, _⟩ := here saved
          cases none
      | some n =>
          refine sound.keep (by rw [at_pc]; rfl)
            ⟨right, made_eq, fun _ => busy, fun saved => ?_⟩
          exact (here saved).1.symm.trans own
  | some dir =>
      refine sound.keep (by rw [at_pc]; rfl) ⟨right, made_eq, fun _ => busy, fun saved => ?_⟩
      obtain ⟨same, n, rfl, there⟩ := here saved
      have known : owns i = some dir := same.symm.trans own
      rw [known] at there
      exact ⟨dir, known, there⟩

theorem thread_forgetting (sound : Sound fds process owns made s) (busy : (s.threads i).Busy)
    {n : Nat} (at_pc : (s.threads i).pc = .forgetting n) :
    Sound fds process owns made (stepAtcall .thread s i (s.threads i) call fd answer) := by
  obtain ⟨right, made_eq, _, here⟩ := sound.good i
  simp only [Thread.At, at_pc] at here
  simp only [Thread.pending, at_pc] at made_eq
  simp only [stepAtcall, at_pc]
  have held : (s.threads i).pc.held = some n := by rw [at_pc]; rfl
  exact sound.update (sound.table.close held rfl) ⟨right, made_eq, fun _ => busy, here⟩ (.inr held)

theorem thread_entering (sound : Sound fds process owns made s)
    (todo : (s.threads i).todo = call :: rest) (from_fd : call.fd = some fd)
    {oldCwd : Option Nat} (at_pc : (s.threads i).pc = .entering oldCwd) :
    Sound fds process owns made (stepAtcall .thread s i (s.threads i) call fd answer) := by
  obtain ⟨right, made_eq, _, here⟩ := sound.good i
  have busy : (s.threads i).Busy := ⟨call, rest, fd, todo, from_fd⟩
  simp only [Thread.At, at_pc] at here
  simp only [Thread.pending, at_pc] at made_eq
  simp only [stepAtcall, at_pc]
  split
  next _ dir there =>
    refine sound.keep (by rw [at_pc]; rfl) ⟨right, made_eq, fun _ => busy, ?_, here⟩
    intro other later fd' named also from_other known
    rw [todo] at also
    cases also
    rw [from_fd] at from_other
    cases from_other
    rw [sound.table.initial known] at there
    exact there.symm
  next =>
    refine sound.keep (by rw [at_pc]; rfl)
      ⟨right_append right (right_unmade _ _ _), ?_, fun _ => busy, here⟩
    rw [← made_eq, todo]
    simp [Thread.pending]

theorem thread_calling (sound : Sound fds process owns made s)
    (todo : (s.threads i).todo = call :: rest) (from_fd : call.fd = some fd)
    {oldCwd : Option Nat} (at_pc : (s.threads i).pc = .calling oldCwd) :
    Sound fds process owns made (stepAtcall .thread s i (s.threads i) call fd answer) := by
  obtain ⟨right, made_eq, _, here⟩ := sound.good i
  have busy : (s.threads i).Busy := ⟨call, rest, fd, todo, from_fd⟩
  simp only [Thread.At, at_pc] at here
  simp only [Thread.pending, at_pc] at made_eq
  simp only [stepAtcall, at_pc]
  obtain ⟨entered, way⟩ := here
  refine sound.keep (by rw [at_pc]; rfl)
    ⟨right_append right (right_from from_fd fun named known => ?_), ?_, fun _ => busy, way⟩
  · rw [State.here, entered call rest fd named todo from_fd known]
    rfl
  · rw [← made_eq, todo]
    simp [Thread.pending]

theorem thread_leaving (sound : Sound fds process owns made s) (busy : (s.threads i).Busy)
    {oldCwd : Option Nat} (at_pc : (s.threads i).pc = .leaving oldCwd) :
    Sound fds process owns made (stepAtcall .thread s i (s.threads i) call fd answer) := by
  obtain ⟨right, made_eq, _, here⟩ := sound.good i
  simp only [Thread.At, at_pc] at here
  simp only [Thread.pending, at_pc] at made_eq
  simp only [stepAtcall, at_pc]
  cases oldCwd with
  | none =>
      refine sound.keep (by rw [at_pc]; rfl)
        ⟨right, made_eq, fun away => absurd rfl away, fun saved => ?_⟩
      exact (here saved).symm
  | some n =>
      dsimp only
      split
      next _ dir there =>
        refine sound.keep (by rw [at_pc]; rfl) ⟨right, made_eq, fun _ => busy, fun saved => ?_⟩
        obtain ⟨known, same, also⟩ := here saved
        rw [there] at also
        rw [same, ← also]
      next =>
        refine sound.keep (by rw [at_pc]; rfl)
          ⟨fun entry among => ?_, made_eq, fun _ => busy, nofun⟩
        exact (right entry among).later nofun

theorem thread_closing (sound : Sound fds process owns made s) {n : Nat}
    (at_pc : (s.threads i).pc = .closing n) :
    Sound fds process owns made (stepAtcall .thread s i (s.threads i) call fd answer) := by
  obtain ⟨right, made_eq, _, here⟩ := sound.good i
  simp only [Thread.At, at_pc] at here
  simp only [Thread.pending, at_pc] at made_eq
  simp only [stepAtcall, at_pc]
  have held : (s.threads i).pc.held = some n := by rw [at_pc]; rfl
  exact sound.update (sound.table.close held rfl)
    ⟨right, made_eq, fun away => absurd rfl away, here⟩ (.inr held)

theorem stepAtcall_thread (sound : Sound fds process owns made s)
    (todo : (s.threads i).todo = call :: rest) (from_fd : call.fd = some fd) :
    Sound fds process owns made (stepAtcall .thread s i (s.threads i) call fd answer) := by
  have busy : (s.threads i).Busy := ⟨call, rest, fd, todo, from_fd⟩
  cases at_pc : (s.threads i).pc with
  | start => exact thread_start answer sound busy at_pc
  | dropping oldCwd => exact thread_dropping answer sound busy at_pc
  | forgetting n => exact thread_forgetting answer sound busy at_pc
  | entering oldCwd => exact thread_entering answer sound todo from_fd at_pc
  | calling oldCwd => exact thread_calling answer sound todo from_fd at_pc
  | leaving oldCwd => exact thread_leaving answer sound busy at_pc
  | closing n => exact thread_closing answer sound at_pc

end Steps

theorem step_thread (sound : Sound fds process owns made s) (event : Nat × Answer) :
    Sound fds process owns made (step .thread s event) := by
  obtain ⟨i, answer⟩ := event
  unfold step
  dsimp only
  split
  next => exact sound
  next call rest todo =>
    split
    next direct =>
      obtain ⟨right, made_eq, busy, here⟩ := sound.good i
      have idle := Thread.idle busy todo direct
      simp only [Thread.At, idle] at here
      simp only [Thread.pending, idle] at made_eq
      refine sound.keep (by rw [idle]; rfl)
        ⟨right_append right (right_direct direct fun saved => ?_), ?_,
          fun away => absurd rfl away, here⟩
      · rw [State.here, here saved, sound.unmoved]
      · rw [← made_eq, todo]
        simp [Thread.pending, Thread.return]
    next fd from_fd => exact stepAtcall_thread answer sound todo from_fd

theorem sound_initial (process : Dir) (fds : Nat → Option Dir) (owns : Nat → Option Dir)
    (made : Nat → List Call) : Sound fds process owns made (.initial process fds owns made) where
  table := ⟨nofun, nofun, fun _ _ => rfl⟩
  unmoved := rfl
  good _ := ⟨nofun, rfl, fun away => absurd rfl away, fun _ => rfl⟩

/-- Where threads have directories of their own, at-calls of any number of threads whose system
calls are interleaved in any way, any of them failing: each wrapped call is made in the directory of
its descriptor, or where its thread stood; a thread stands again where it stood when its call has
returned, unless that directory could not be opened or gone back to; the directory of the process
stays, and so do the descriptors, but for one of each thread in a call. -/
theorem atcalls_threads (process : Dir) (fds : Nat → Option Dir) (owns : Nat → Option Dir)
    (made : Nat → List Call) (events : List (Nat × Answer)) :
    let s := events.foldl (step .thread) (.initial process fds owns made)
    (∀ i, (s.threads i).log.map Prod.fst ++ (s.threads i).pending = made i ∧
        (∀ entry ∈ (s.threads i).log,
          Right fds ((owns i).getD process) ((s.threads i).unsaved = false) entry) ∧
        ((s.threads i).pc = .start → (s.threads i).unsaved = false →
          (s.threads i).own = owns i)) ∧
      s.process = process ∧ Table fds s := by
  have kept : ∀ s event, Sound fds process owns made s → True →
      Sound fds process owns made (step .thread s event) :=
    fun _ event sound _ => step_thread sound event
  have sound := Throughout.keeps kept (sound_initial process fds owns made)
    (throughout_always (fun _ _ => True.intro) _ events)
  refine ⟨fun i => ⟨(sound.good i).made, (sound.good i).right, fun idle saved => ?_⟩,
    sound.unmoved, sound.table⟩
  have here := (sound.good i).here
  simp only [Thread.At, idle] at here
  exact here saved

end Threads

/-! ## The directory of the process -/

section Process

variable {process : Dir} {calls : List Call} {kept : Prop}

def Thread.In (fds : Nat → Option Dir) (process : Dir) (kept : Prop) (thread : Thread Dir)
    (now : Nat → Option Dir) (somewhere : Dir) : Prop :=
  match thread.pc with
  | .start => True
  | .dropping oldCwd | .entering oldCwd =>
      kept → somewhere = process ∧ Way (some process) now oldCwd
  | .forgetting _ => False
  | .calling oldCwd =>
      (∀ call rest fd named, thread.todo = call :: rest → call.fd = some fd →
        fds fd = some named → somewhere = named) ∧
      (kept → Way (some process) now oldCwd)
  | .leaving oldCwd => kept → Way (some process) now oldCwd
  | .closing _ => kept → somewhere = process

structure Thread.Sharing (fds : Nat → Option Dir) (process : Dir) (calls : List Call) (kept : Prop)
    (thread : Thread Dir) (now : Nat → Option Dir) (somewhere : Dir) : Prop where
  own : thread.own = none
  right : ∀ entry ∈ thread.log, Right fds process kept entry
  made : thread.log.map Prod.fst ++ thread.pending = calls
  busy : thread.pc ≠ .start → thread.Busy
  here : thread.In fds process kept now somewhere

def Kept (s : State Dir) : Prop := ∀ i, (s.threads i).unsaved = false

structure Serial (fds : Nat → Option Dir) (process : Dir) (made : Nat → List Call)
    (s : State Dir) : Prop where
  table : Table fds s
  only : ∀ i j, (s.threads i).pc ≠ .start → (s.threads j).pc ≠ .start → i = j
  back : (∀ i, (s.threads i).pc = .start) → Kept s → s.process = process
  sharing : ∀ i, (s.threads i).Sharing fds process (made i) (Kept s) s.fds s.process

def Alone (s : State Dir) (event : Nat × Answer) : Prop :=
  ∀ j, j ≠ event.1 → (s.threads j).pc = .start

variable {made : Nat → List Call}

theorem Serial.put (serial : Serial fds process made s) {answer : Answer}
    (alone : Alone s (i, answer)) {thread : Thread Dir} {now : Nat → Option Dir} {somewhere : Dir}
    (table : Table fds ({ s with process := somewhere, fds := now }.put i thread))
    (since : thread.unsaved = false → (s.threads i).unsaved = false)
    (back : thread.pc = .start → Kept s → thread.unsaved = false → somewhere = process)
    (sharing : thread.Sharing fds process (made i) (Kept s ∧ thread.unsaved = false) now
      somewhere) :
    Serial fds process made ({ s with process := somewhere, fds := now }.put i thread) := by
  have others : ∀ j, j ≠ i → ({ s with process := somewhere, fds := now }.put i thread).threads j =
      s.threads j := by
    intro j differs
    simp [State.put, differs]
  have self : ({ s with process := somewhere, fds := now }.put i thread).threads i = thread := by
    simp [State.put]
  have before : Kept ({ s with process := somewhere, fds := now }.put i thread) →
      Kept s ∧ thread.unsaved = false := by
    intro all
    have mine := all i
    rw [self] at mine
    refine ⟨fun j => ?_, mine⟩
    rcases eq_or_ne j i with rfl | differs
    · exact since mine
    · have other := all j
      rwa [others j differs] at other
  refine ⟨table, fun j k first second => ?_, fun idle all => ?_, fun j => ?_⟩
  · have mine : ∀ l, (({ s with process := somewhere, fds := now }.put i thread).threads l).pc ≠
        .start → l = i := by
      intro l away
      by_contra differs
      rw [others l differs] at away
      exact away (alone l differs)
    rw [mine j first, mine k second]
  · have away := idle i
    rw [self] at away
    exact back away (before all).1 (before all).2
  · rcases eq_or_ne j i with rfl | differs
    · rw [self]
      obtain ⟨own, right, made_eq, busy, here⟩ := sharing
      refine ⟨own, fun entry among => (right entry among).later before, made_eq, busy, ?_⟩
      unfold Thread.In at here ⊢
      revert here
      cases thread.pc with
      | start => exact id
      | dropping oldCwd => exact fun here all => here (before all)
      | forgetting n => exact id
      | entering oldCwd => exact fun here all => here (before all)
      | calling oldCwd => exact fun here => ⟨here.1, fun all => here.2 (before all)⟩
      | leaving oldCwd => exact fun here all => here (before all)
      | closing n => exact fun here all => here (before all)
    · rw [others j differs]
      obtain ⟨own, right, made_eq, busy, _⟩ := serial.sharing j
      refine ⟨own, fun entry among => (right entry among).later fun all => (before all).1, made_eq,
        busy, ?_⟩
      simp only [Thread.In, alone j differs]

theorem Serial.between (serial : Serial fds process made s) {answer : Answer}
    (alone : Alone s (i, answer)) (idle : (s.threads i).pc = .start) :
    Kept s → s.process = process := by
  refine serial.back fun j => ?_
  rcases eq_or_ne j i with rfl | differs
  · exact idle
  · exact alone j differs

theorem Serial.logged (serial : Serial fds process made s) (i : Nat) (saved : Prop) :
    ∀ entry ∈ (s.threads i).log, Right fds process (Kept s ∧ saved) entry :=
  fun entry among => ((serial.sharing i).right entry among).later And.left

section Steps

variable {answer : Answer} {call : Call} {rest : List Call} {fd : Nat}

theorem process_start (serial : Serial fds process made s) (alone : Alone s (i, answer))
    (busy : (s.threads i).Busy) (at_pc : (s.threads i).pc = .start) :
    Serial fds process made (stepAtcall .process s i (s.threads i) call fd answer) := by
  obtain ⟨own, _, made_eq, _, _⟩ := serial.sharing i
  simp only [Thread.pending, at_pc] at made_eq
  have between := serial.between alone at_pc
  simp only [stepAtcall, at_pc]
  split
  next n =>
    split
    next free =>
      rw [Option.isNone_iff_eq_none] at free
      refine serial.put alone (serial.table.open free (by rw [at_pc]; rfl) rfl) id nofun
        ⟨own, serial.logged i _, made_eq, fun _ => busy, ?_⟩
      rintro ⟨all, _⟩
      refine ⟨between all, process, rfl, ?_⟩
      rw [Function.update_self, State.here, own, Option.getD_none, between all]
    next => exact serial
  next =>
    refine serial.put alone (serial.table.keep (by rw [at_pc]; rfl)) nofun nofun
      ⟨own, serial.logged i _, made_eq, fun _ => busy, ?_⟩
    rintro ⟨_, saved⟩
    cases saved

theorem process_entering (serial : Serial fds process made s) (alone : Alone s (i, answer))
    (todo : (s.threads i).todo = call :: rest) (from_fd : call.fd = some fd)
    {oldCwd : Option Nat} (at_pc : (s.threads i).pc = .entering oldCwd) :
    Serial fds process made (stepAtcall .process s i (s.threads i) call fd answer) := by
  obtain ⟨own, _, made_eq, _, here⟩ := serial.sharing i
  have busy : (s.threads i).Busy := ⟨call, rest, fd, todo, from_fd⟩
  simp only [Thread.In, at_pc] at here
  simp only [Thread.pending, at_pc] at made_eq
  simp only [stepAtcall, at_pc]
  split
  next _ dir there =>
    refine serial.put alone (serial.table.keep (by rw [at_pc]; rfl)) id nofun
      ⟨own, serial.logged i _, made_eq, fun _ => busy, ?_, fun all => (here all.1).2⟩
    intro other later fd' named also from_other known
    rw [todo] at also
    cases also
    rw [from_fd] at from_other
    cases from_other
    rw [serial.table.initial known] at there
    exact (Option.some.inj there).symm
  next =>
    refine serial.put alone (serial.table.keep (by rw [at_pc]; rfl)) id nofun
      ⟨own, right_append (serial.logged i _) (right_unmade _ _ _), ?_, fun _ => busy,
        fun all => (here all.1).2⟩
    rw [← made_eq, todo]
    simp [Thread.pending]

theorem process_calling (serial : Serial fds process made s) (alone : Alone s (i, answer))
    (todo : (s.threads i).todo = call :: rest) (from_fd : call.fd = some fd)
    {oldCwd : Option Nat} (at_pc : (s.threads i).pc = .calling oldCwd) :
    Serial fds process made (stepAtcall .process s i (s.threads i) call fd answer) := by
  obtain ⟨own, _, made_eq, _, here⟩ := serial.sharing i
  have busy : (s.threads i).Busy := ⟨call, rest, fd, todo, from_fd⟩
  simp only [Thread.In, at_pc] at here
  simp only [Thread.pending, at_pc] at made_eq
  simp only [stepAtcall, at_pc]
  obtain ⟨entered, way⟩ := here
  refine serial.put alone (serial.table.keep (by rw [at_pc]; rfl)) id nofun
    ⟨own, right_append (serial.logged i _) (right_from from_fd fun named known => ?_), ?_,
      fun _ => busy, fun all => way all.1⟩
  · rw [State.here, own, Option.getD_none]
    exact entered call rest fd named todo from_fd known
  · rw [← made_eq, todo]
    simp [Thread.pending]

theorem process_leaving (serial : Serial fds process made s) (alone : Alone s (i, answer))
    (busy : (s.threads i).Busy) {oldCwd : Option Nat}
    (at_pc : (s.threads i).pc = .leaving oldCwd) :
    Serial fds process made (stepAtcall .process s i (s.threads i) call fd answer) := by
  obtain ⟨own, _, made_eq, _, here⟩ := serial.sharing i
  simp only [Thread.In, at_pc] at here
  simp only [Thread.pending, at_pc] at made_eq
  simp only [stepAtcall, at_pc]
  cases oldCwd with
  | none =>
      refine serial.put alone (serial.table.keep (by rw [at_pc]; rfl)) id (fun _ all => ?_)
        ⟨own, serial.logged i _, made_eq, fun away => absurd rfl away, trivial⟩
      cases here all
  | some n =>
      dsimp only
      split
      next _ dir there =>
        refine serial.put alone (serial.table.keep (by rw [at_pc]; rfl)) id nofun
          ⟨own, serial.logged i _, made_eq, fun _ => busy, fun all => ?_⟩
        obtain ⟨_, ⟨⟩, also⟩ := here all.1
        rw [there] at also
        exact Option.some.inj also
      next =>
        refine serial.put alone (serial.table.keep (by rw [at_pc]; rfl)) nofun nofun
          ⟨own, serial.logged i _, made_eq, fun _ => busy, ?_⟩
        rintro ⟨_, saved⟩
        cases saved

theorem stepAtcall_process (serial : Serial fds process made s) (alone : Alone s (i, answer))
    (todo : (s.threads i).todo = call :: rest) (from_fd : call.fd = some fd) :
    Serial fds process made (stepAtcall .process s i (s.threads i) call fd answer) := by
  have busy : (s.threads i).Busy := ⟨call, rest, fd, todo, from_fd⟩
  obtain ⟨own, _, made_eq, _, here⟩ := serial.sharing i
  cases at_pc : (s.threads i).pc with
  | start => exact process_start serial alone busy at_pc
  | dropping oldCwd =>
      simp only [Thread.In, at_pc] at here
      simp only [Thread.pending, at_pc] at made_eq
      simp only [stepAtcall, at_pc]
      exact serial.put alone (serial.table.keep (by rw [at_pc]; rfl)) id nofun
        ⟨own, serial.logged i _, made_eq, fun _ => busy, fun all => here all.1⟩
  | forgetting n => simp only [Thread.In, at_pc] at here
  | entering oldCwd => exact process_entering serial alone todo from_fd at_pc
  | calling oldCwd => exact process_calling serial alone todo from_fd at_pc
  | leaving oldCwd => exact process_leaving serial alone busy at_pc
  | closing n =>
      simp only [Thread.In, at_pc] at here
      simp only [Thread.pending, at_pc] at made_eq
      simp only [stepAtcall, at_pc]
      have held : (s.threads i).pc.held = some n := by rw [at_pc]; rfl
      exact serial.put alone (serial.table.close held rfl) id (fun _ all _ => here all)
        ⟨own, serial.logged i _, made_eq, fun away => absurd rfl away, trivial⟩

end Steps

theorem step_process (serial : Serial fds process made s) {event : Nat × Answer}
    (alone : Alone s event) : Serial fds process made (step .process s event) := by
  obtain ⟨i, answer⟩ := event
  unfold step
  dsimp only
  split
  next => exact serial
  next call rest todo =>
    split
    next direct =>
      obtain ⟨own, _, made_eq, busy, _⟩ := serial.sharing i
      have idle := Thread.idle busy todo direct
      have between := serial.between alone idle
      simp only [Thread.pending, idle] at made_eq
      refine serial.put alone (serial.table.keep (by rw [idle]; rfl)) id
        (fun _ all _ => between all)
        ⟨own, right_append (serial.logged i _) (right_direct direct ?_), ?_,
          fun away => absurd rfl away, trivial⟩
      · rintro ⟨all, _⟩
        rw [State.here, own, Option.getD_none, between all]
      · rw [← made_eq, todo]
        simp [Thread.pending, Thread.return]
    next fd from_fd => exact stepAtcall_process serial alone todo from_fd

/-- On 10.4, where only the process has a directory, the same holds of runs in which no thread takes
a step while another is in a call. -/
theorem atcalls_process (process : Dir) (fds : Nat → Option Dir) (made : Nat → List Call)
    (events : List (Nat × Answer))
    (alone : Throughout (step .process) Alone
      (.initial process fds (fun _ => none) made) events) :
    let s := events.foldl (step .process) (.initial process fds (fun _ => none) made)
    (∀ i, (s.threads i).log.map Prod.fst ++ (s.threads i).pending = made i ∧
        ∀ entry ∈ (s.threads i).log, Right fds process (Kept s) entry) ∧
      ((∀ i, (s.threads i).pc = .start) → Kept s → s.process = process) ∧ Table fds s := by
  have initial : Serial fds process made (.initial process fds (fun _ => none) made) :=
    ⟨⟨nofun, nofun, fun _ _ => rfl⟩, fun _ _ away => absurd rfl away, fun _ _ => rfl,
      fun _ => ⟨rfl, nofun, rfl, fun away => absurd rfl away, trivial⟩⟩
  have kept : ∀ s event, Serial fds process made s → Alone s event →
      Serial fds process made (step .process s event) :=
    fun _ _ serial alone => step_process serial alone
  have serial := Throughout.keeps kept initial alone
  exact ⟨fun i => ⟨(serial.sharing i).made, (serial.sharing i).right⟩, serial.back, serial.table⟩

theorem step_other (level : Level) (s : State Dir) (event : Nat × Answer) {j : Nat}
    (differs : j ≠ event.1) : (step level s event).threads j = s.threads j := by
  obtain ⟨i, answer⟩ := event
  unfold step
  dsimp only
  split
  next => rfl
  next =>
    split
    next => simp [State.put, differs]
    next =>
      unfold stepAtcall State.enter
      repeat' split
      all_goals simp [State.put, differs]

def turn (i : Nat) (answers : List Answer) : List (Nat × Answer) :=
  answers.map fun answer => (i, answer)

theorem turn_other (level : Level) {i j : Nat} (differs : j ≠ i) (answers : List Answer) :
    ∀ s : State Dir, ((turn i answers).foldl (step level) s).threads j = s.threads j := by
  induction answers with
  | nil => exact fun s => rfl
  | cons answer answers ih =>
      exact fun s => (ih (step level s (i, answer))).trans (step_other level s (i, answer) differs)

theorem alone_turn (level : Level) (i : Nat) (answers : List Answer)
    (more : List (Nat × Answer)) : ∀ s : State Dir, (∀ j, j ≠ i → (s.threads j).pc = .start) →
    Throughout (step level) Alone ((turn i answers).foldl (step level) s) more →
    Throughout (step level) Alone s (turn i answers ++ more) := by
  induction answers with
  | nil => exact fun s _ rest => rest
  | cons answer answers ih =>
      intro s others rest
      refine ⟨others, ih _ (fun j differs => ?_) rest⟩
      rw [step_other level s (i, answer) differs]
      exact others j differs

theorem alone_turns (level : Level) (turns : List (Nat × List Answer)) : ∀ s : State Dir,
    (∀ j, (s.threads j).pc = .start) →
    Throughout (fun s turn' => (turn turn'.1 turn'.2).foldl (step level) s)
      (fun s turn' =>
        (((turn turn'.1 turn'.2).foldl (step level) s).threads turn'.1).pc = .start) s turns →
    Throughout (step level) Alone s (turns.flatMap fun turn' => turn turn'.1 turn'.2) := by
  induction turns with
  | nil => exact fun s _ _ => throughout_nil s
  | cons first turns ih =>
      intro s idle ended
      refine alone_turn level first.1 first.2 _ s (fun j _ => idle j) (ih _ (fun j => ?_) ended.2)
      rcases eq_or_ne j first.1 with rfl | differs
      · exact ended.1
      · rw [turn_other level differs]
        exact idle j

def twoDirs : Nat → Option Nat
  | 3 => some 1
  | 4 => some 2
  | _ => none

def fourCalls : Nat → List Call
  | 0 => [⟨some 3⟩, ⟨some 4⟩]
  | 1 => [⟨some 4⟩, ⟨some 3⟩]
  | _ => []

def fourTurns : List (Nat × List Answer) :=
  [(0, List.replicate 6 (.ok 5)), (1, List.replicate 6 (.ok 6)), (0, List.replicate 6 (.ok 5)),
    (1, .error :: List.replicate 4 (.ok 6))]

theorem atcalls_process_turns :
    let events := fourTurns.flatMap fun turn' => turn turn'.1 turn'.2
    let s := events.foldl (step .process) (.initial 0 twoDirs (fun _ => none) fourCalls)
    (s.threads 1).log = [(⟨some 4⟩, some 2), (⟨some 3⟩, some 1)] ∧ s.process = 1 ∧
      (∀ i, (s.threads i).log.map Prod.fst ++ (s.threads i).pending = fourCalls i ∧
        ∀ entry ∈ (s.threads i).log, Right twoDirs 0 (Kept s) entry) ∧
      ((∀ i, (s.threads i).pc = .start) → Kept s → s.process = 0) ∧ Table twoDirs s :=
  ⟨by decide, by decide, atcalls_process 0 twoDirs fourCalls _
    (alone_turns .process fourTurns _ (fun _ => rfl) ⟨rfl, rfl, rfl, rfl, True.intro⟩)⟩

def twoCallers : Nat → List Call
  | 0 => [⟨some 3⟩]
  | 1 => [⟨some 4⟩]
  | _ => []

/-- Where calls overlap, they are made in each other's directories, and the process is left in one
of them, without any failure. -/
theorem atcalls_process_race :
    let events := [(0, .ok 5), (0, .ok 0), (0, .ok 0), (1, .ok 6), (1, .ok 0), (1, .ok 0),
      (0, .ok 0), (0, .ok 0), (0, .ok 0), (1, .ok 0), (1, .ok 0), (1, .ok 0)]
    let s := events.foldl (step .process) (.initial 0 twoDirs (fun _ => none) twoCallers)
    (s.threads 0).log = [(⟨some 3⟩, some 2)] ∧ (s.threads 1).log = [(⟨some 4⟩, some 0)] ∧
      (s.threads 0).todo = [] ∧ (s.threads 1).todo = [] ∧ s.process = 1 := by
  decide

end Process

end LegacySupport.AtThreads
