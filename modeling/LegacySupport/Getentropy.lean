import LegacySupport.Runs

/-!
`getentropy` in threads that run at once. They share the descriptor of the random device, which each
opens that finds it not open, and every byte that the device puts out goes to one of them.
-/

namespace LegacySupport.Getentropy

open Runs

abbrev Errno := Nat

def eintr : Errno := 4

/-- What the system answers to the call a thread makes: a descriptor, a number of bytes, or an
error. An answer that does not fit the call is read as an error. -/
inductive Answer
  | opened (fd : Nat)
  | bytes (m : Nat)
  | error (error : Errno)
  deriving DecidableEq

inductive Pc
  | start
  | opening
  | reading (n : Nat)
  deriving DecidableEq

/-- The sizes asked for from the present call on, what the present call's buffer has got, and the
buffers of the calls that have returned. A byte is told by its place in what the device puts out. -/
structure Thread where
  todo : List Nat
  pc : Pc
  b : List Nat
  returned : List (List Nat)

structure State where
  threads : Nat → Thread
  fd : Option Nat
  putOut : Nat
  exited : Bool

def State.initial (sizes : Nat → List Nat) : State where
  threads := fun i => ⟨sizes i, .start, [], []⟩
  fd := none
  putOut := 0
  exited := false

def State.put (s : State) (i : Nat) (thread : Thread) : State :=
  { s with threads := Function.update s.threads i thread }

def State.exit (s : State) : State := { s with exited := true }

def stepCall (s : State) (i : Nat) (thread : Thread) (size : Nat) (rest : List Nat)
    (answer : Answer) : State :=
  match thread.pc with
  | .start =>
      match s.fd with
      | none => s.put i { thread with pc := .opening }
      | some _ => s.put i { thread with pc := .reading size }
  | .opening =>
      match answer with
      | .opened fd => { s with fd := some fd }.put i { thread with pc := .reading size }
      | _ => s.exit
  | .reading n =>
      if 0 < n then
        match answer with
        | .bytes m =>
            -- `read` never gives more than it is asked for.
            let m := min m n
            { s with putOut := s.putOut + m }.put i
              { thread with pc := .reading (n - m), b := thread.b ++ List.range' s.putOut m }
        | .error error => if error = eintr then s else s.exit
        | .opened _ => s.exit
      else
        s.put i { todo := rest, pc := .start, b := [], returned := thread.returned ++ [thread.b] }

def step (s : State) (event : Nat × Answer) : State :=
  let (i, answer) := event
  if s.exited then s
  else
    match (s.threads i).todo with
    | [] => s
    | size :: rest => stepCall s i (s.threads i) size rest answer

/-! ## What holds between steps -/

def Thread.got (thread : Thread) : List Nat := thread.returned.flatten ++ thread.b

structure Thread.Good (thread : Thread) (sizes : List Nat) (putOut : Nat) : Prop where
  made : thread.returned.map List.length ++ thread.todo = sizes
  left : ∀ n, thread.pc = .reading n → ∃ rest, thread.todo = (thread.b.length + n) :: rest
  fresh : (∀ n, thread.pc ≠ .reading n) → thread.b = []
  below : ∀ p ∈ thread.got, p < putOut
  ordered : thread.got.Pairwise (· < ·)

structure Sound (sizes : Nat → List Nat) (s : State) : Prop where
  good : ∀ i, (s.threads i).Good (sizes i) s.putOut
  apart : ∀ i j, i ≠ j → ∀ p ∈ (s.threads i).got, p ∉ (s.threads j).got
  spent : ∀ p < s.putOut, ∃ i, p ∈ (s.threads i).got

variable {sizes : Nat → List Nat} {s : State} {i : Nat}

theorem Thread.Good.later {thread : Thread} {calls : List Nat} {putOut more : Nat}
    (good : thread.Good calls putOut) (grown : putOut ≤ more) : thread.Good calls more where
  made := good.made
  left := good.left
  fresh := good.fresh
  below p among := lt_of_lt_of_le (good.below p among) grown
  ordered := good.ordered

theorem Sound.quiet (sound : Sound sizes s) {thread : Thread} {fd : Option Nat}
    (good : thread.Good (sizes i) s.putOut) (same : thread.got = (s.threads i).got) :
    Sound sizes ({ s with fd }.put i thread) := by
  have all : ∀ j, (({ s with fd }.put i thread).threads j).got = (s.threads j).got := by
    intro j
    rcases eq_or_ne j i with rfl | differs
    · simpa [State.put] using same
    · simp [State.put, differs]
  refine ⟨fun j => ?_, fun j k differs p => ?_, fun p below => ?_⟩
  · rcases eq_or_ne j i with rfl | differs
    · simpa [State.put] using good
    · simpa [State.put, differs] using sound.good j
  · rw [all, all]
    exact sound.apart j k differs p
  · obtain ⟨j, among⟩ := sound.spent p below
    exact ⟨j, by rwa [all]⟩

theorem Sound.read (sound : Sound sizes s) {thread : Thread} {m : Nat}
    (good : thread.Good (sizes i) (s.putOut + m))
    (got : thread.got = (s.threads i).got ++ List.range' s.putOut m) :
    Sound sizes ({ s with putOut := s.putOut + m }.put i thread) := by
  have self : (({ s with putOut := s.putOut + m }.put i thread).threads i).got =
      (s.threads i).got ++ List.range' s.putOut m := by
    simpa [State.put] using got
  have other : ∀ j, j ≠ i →
      ({ s with putOut := s.putOut + m }.put i thread).threads j = s.threads j := by
    intro j differs
    simp [State.put, differs]
  -- What others have got was put out before.
  have unseen : ∀ j p, p ∈ List.range' s.putOut m → p ∉ (s.threads j).got := by
    intro j p new among
    have below := (sound.good j).below p among
    rw [List.mem_range'_1] at new
    omega
  refine ⟨fun j => ?_, fun j k differs p => ?_, fun p below => ?_⟩
  · rcases eq_or_ne j i with rfl | differs
    · simpa [State.put] using good
    · rw [other j differs]
      exact (sound.good j).later (Nat.le_add_right _ _)
  · rcases eq_or_ne j i with rfl | first
    · rw [self, other k differs.symm, List.mem_append]
      rintro (before | new)
      · exact sound.apart j k differs p before
      · exact unseen k p new
    · rcases eq_or_ne k i with rfl | second
      · rw [self, other j first, List.mem_append]
        rintro among (before | new)
        · exact sound.apart j k differs p among before
        · exact unseen j p new among
      · rw [other j first, other k second]
        exact sound.apart j k differs p
  · by_cases earlier : p < s.putOut
    · obtain ⟨j, among⟩ := sound.spent p earlier
      rcases eq_or_ne j i with rfl | differs
      · exact ⟨j, by rw [self]; exact List.mem_append_left _ among⟩
      · exact ⟨j, by rwa [other j differs]⟩
    · refine ⟨i, ?_⟩
      rw [self, List.mem_append, List.mem_range'_1]
      exact .inr ⟨by omega, below⟩

theorem Sound.exit (sound : Sound sizes s) : Sound sizes s.exit :=
  ⟨sound.good, sound.apart, sound.spent⟩

theorem stepCall_sound (sound : Sound sizes s) {size : Nat} {rest : List Nat}
    (todo : (s.threads i).todo = size :: rest) (answer : Answer) :
    Sound sizes (stepCall s i (s.threads i) size rest answer) := by
  have good := sound.good i
  have quiet : (∀ n, (s.threads i).pc ≠ .reading n) →
      Thread.Good { s.threads i with pc := .reading size } (sizes i) s.putOut := by
    intro out
    have empty := good.fresh out
    refine ⟨good.made, ?_, fun none => absurd rfl (none size), good.below, good.ordered⟩
    rintro n ⟨⟩
    exact ⟨rest, by rw [todo, empty, List.length_nil, Nat.zero_add]⟩
  unfold stepCall
  cases at_pc : (s.threads i).pc with
  | start =>
      have out : ∀ n, (s.threads i).pc ≠ .reading n := by
        intro n
        rw [at_pc]
        exact nofun
      dsimp only
      split
      next =>
        refine sound.quiet ?_ rfl
        exact ⟨good.made, nofun, fun _ => good.fresh out, good.below, good.ordered⟩
      next => exact sound.quiet (quiet out) rfl
  | opening =>
      have out : ∀ n, (s.threads i).pc ≠ .reading n := by
        intro n
        rw [at_pc]
        exact nofun
      dsimp only
      split
      next fd => exact sound.quiet (quiet out) rfl
      next => exact sound.exit
  | reading n =>
      obtain ⟨rest', whole⟩ := good.left n at_pc
      dsimp only
      split
      next positive =>
        split
        next m =>
          have most : min m n ≤ n := Nat.min_le_right m n
          have got : Thread.got { s.threads i with
                pc := .reading (n - min m n)
                b := (s.threads i).b ++ List.range' s.putOut (min m n) } =
              (s.threads i).got ++ List.range' s.putOut (min m n) := by
            simp only [Thread.got, List.append_assoc]
          refine sound.read ⟨good.made, ?_, fun none => absurd rfl (none _), ?_, ?_⟩ got
          · rintro k ⟨⟩
            refine ⟨rest', ?_⟩
            have total : (s.threads i).b.length + min m n + (n - min m n) =
                (s.threads i).b.length + n := by omega
            rw [List.length_append, List.length_range', total]
            exact whole
          · intro p among
            rw [got, List.mem_append, List.mem_range'_1] at among
            rcases among with before | new
            · exact lt_of_lt_of_le (good.below p before) (Nat.le_add_right _ _)
            · exact new.2
          · rw [got, List.pairwise_append]
            refine ⟨good.ordered, List.pairwise_lt_range', fun p before q new => ?_⟩
            have below := good.below p before
            rw [List.mem_range'_1] at new
            omega
        next error =>
          split
          next => exact sound
          next => exact sound.exit
        next => exact sound.exit
      next done =>
        have filled : size = (s.threads i).b.length := by
          rw [todo] at whole
          have head := (List.cons.inj whole).1
          omega
        have got : Thread.got ⟨rest, .start, [], (s.threads i).returned ++ [(s.threads i).b]⟩ =
            (s.threads i).got := by
          simp [Thread.got]
        refine sound.quiet ⟨?_, nofun, fun _ => rfl, ?_, ?_⟩ got
        · rw [← good.made, todo, filled]
          simp
        · rw [got]
          exact good.below
        · rw [got]
          exact good.ordered

theorem step_sound (sound : Sound sizes s) (event : Nat × Answer) :
    Sound sizes (step s event) := by
  unfold step
  dsimp only
  split
  next => exact sound
  next =>
    split
    next => exact sound
    next size rest todo => exact stepCall_sound sound todo event.2

theorem sound_initial (sizes : Nat → List Nat) : Sound sizes (.initial sizes) where
  good _ := ⟨rfl, nofun, fun _ => rfl, nofun, List.Pairwise.nil⟩
  apart _ _ _ _ among := nomatch among
  spent _ below := absurd below (Nat.not_lt_zero _)

/-! ## Exits -/

def Fits (s : State) (event : Nat × Answer) : Prop :=
  (s.threads event.1).todo ≠ [] →
    match (s.threads event.1).pc with
    | .start => True
    | .opening => ∃ fd, event.2 = .opened fd
    | .reading n => 0 < n → (∃ m, event.2 = .bytes m) ∨ event.2 = .error eintr

theorem step_exited (running : s.exited = false) (event : Nat × Answer) :
    (step s event).exited = false ↔ Fits s event := by
  obtain ⟨i, answer⟩ := event
  unfold step Fits
  simp only [running, Bool.false_eq_true, if_false]
  cases todo : (s.threads i).todo with
  | nil => simp [running]
  | cons size rest =>
      simp only [ne_eq, reduceCtorEq, not_false_eq_true, forall_const]
      unfold stepCall
      cases (s.threads i).pc with
      | start => cases s.fd <;> simp [State.put, running]
      | opening => cases answer <;> simp [State.put, State.exit, running]
      | reading n =>
          by_cases more : 0 < n
          · cases answer with
            | opened fd => simp [more, State.exit]
            | bytes m => simp [more, State.put, running]
            | error error =>
                by_cases interrupted : error = eintr <;>
                  simp [more, interrupted, State.exit, running]
          · simp [more, State.put, running]

theorem exited_stays (events : List (Nat × Answer)) : ∀ s : State, s.exited = true →
    (events.foldl step s).exited = true := by
  induction events with
  | nil => exact fun s exited => exited
  | cons event events ih =>
      intro s exited
      refine ih (step s event) ?_
      simp [step, exited]

theorem run_exited (events : List (Nat × Answer)) : ∀ s : State, s.exited = false →
    ((events.foldl step s).exited = false ↔ Throughout step Fits s events) := by
  induction events with
  | nil => exact fun s running => iff_of_true running (throughout_nil s)
  | cons event events ih =>
      intro s running
      rw [List.foldl_cons, throughout_cons, ← step_exited running event]
      cases exited : (step s event).exited with
      | false =>
          rw [ih _ exited]
          simp
      | true =>
          rw [exited_stays events _ exited]
          simp

/-- Whatever the order of the threads' steps, and however short or interrupted the reads: a call
that has returned has filled its buffer, and every byte that the device has put out has come to
exactly one place of one buffer. The process exits at the first failure that is not an
interruption. -/
theorem getentropy_runs (sizes : Nat → List Nat) (events : List (Nat × Answer)) :
    let s := events.foldl step (.initial sizes)
    (∀ i, (s.threads i).returned.map List.length ++ (s.threads i).todo = sizes i ∧
        (s.threads i).got.Pairwise (· < ·)) ∧
      (∀ i j, i ≠ j → ∀ p ∈ (s.threads i).got, p ∉ (s.threads j).got) ∧
      (∀ p, p < s.putOut ↔ ∃ i, p ∈ (s.threads i).got) ∧
      (s.exited = false ↔ Throughout step Fits (.initial sizes) events) := by
  have kept : ∀ s event, Sound sizes s → True → Sound sizes (step s event) :=
    fun _ event sound _ => step_sound sound event
  have sound := Throughout.keeps kept (sound_initial sizes)
    (throughout_always (fun _ _ => True.intro) (State.initial sizes) events)
  refine ⟨fun i => ⟨(sound.good i).made, (sound.good i).ordered⟩, sound.apart, fun p => ?_,
    run_exited events _ rfl⟩
  constructor
  · exact sound.spent p
  · rintro ⟨i, among⟩
    exact (sound.good i).below p among

end LegacySupport.Getentropy
