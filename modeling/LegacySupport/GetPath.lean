import LegacySupport.GetPathCore
import LegacySupport.Runs

/-!
What the calls of `fcntl(F_GETPATH)` return, whatever the order of the threads' steps: each the path
of its own descriptor, as if it were alone.
-/

namespace LegacySupport.GetPath

open CInt Access Runs

/-! ## A call by itself -/

variable (system : System)

def alone (call : Call) : Except Errno (List UInt8) :=
  match osFcntl system call.first call.adr with
  | .ok path => .ok path
  | .error error =>
      if error ≠ efault ∨ call.adr < lowMemory ∨
          Writable system.map.regions call.adr maxpathlen = false then .error error
      else call.second

/-- A return brings the path that the call comes to alone, or its error with the buffer as it
was. -/
def Return.Meets (r : Return) : Prop :=
  match alone system r.call with
  | .ok path => r.ret = 0 ∧ path <+: r.after
  | .error error => r.ret = -1 ∧ r.errno = error ∧ r.after = r.before

/-- The static buffer is needed, and the caller's can be written. -/
def Fallback (call : Call) : Prop :=
  osFcntl system call.first call.adr = .error efault ∧ ¬ call.adr < lowMemory ∧
    Writable system.map.regions call.adr maxpathlen = true

variable {system}

theorem alone_fallback {call : Call} (fallback : Fallback system call) :
    alone system call = call.second := by
  obtain ⟨refused, high, writable⟩ := fallback
  simp [alone, refused, high, writable]

theorem alone_punt {call : Call} {error : Errno}
    (refused : osFcntl system call.first call.adr = .error error)
    (punt : error ≠ efault ∨ call.adr < lowMemory ∨
      Writable system.map.regions call.adr maxpathlen = false) :
    alone system call = .error error := by
  simp only [alone, refused]
  rw [if_pos punt]

theorem osFcntl_ok {said : Except Errno (List UInt8)} {adr : Nat} {path : List UInt8}
    (answer : osFcntl system said adr = .ok path) : said = .ok path := by
  unfold osFcntl at answer
  split at answer
  next => cases answer
  next =>
    split at answer
    next =>
      cases answer
      rfl
    next => cases answer

theorem osFcntl_pathbuf (call : Call) :
    osFcntl system call.second system.pathbuf = call.second := by
  cases said : call.second with
  | error error => rfl
  | ok path =>
      have fits := call.short path (.inr said)
      have writable : Writable system.map.regions (system.pathbuf + 0) path.length = true :=
        writable_part system.pathbufWritable (by omega)
      rw [Nat.add_zero] at writable
      simp [osFcntl, system.low _ system.pathbufLow, writable]

theorem check_iff (call : Call) :
    mplsCheckAccess .lp64 system.page system.map.regions call.adr maxpathlen vmProtWrite none = 0 ↔
      Writable system.map.regions call.adr maxpathlen = true := by
  rw [writable_iff]
  exact mplsCheckAccess_short .lp64 system.map vmProtWrite (by decide) system.pages call.top
    (fun _ absent => nomatch absent)

/-! ## Memory -/

def Starts (memory : Memory) (adr : Nat) (path : List UInt8) (k : Nat) : Prop :=
  ∀ j < k, memory (adr + j) = path.getD j 0

def SameRange (memory other : Memory) (adr : Nat) : Prop :=
  ∀ j < maxpathlen, other (adr + j) = memory (adr + j)

theorem read_same {memory other : Memory} {adr : Nat} (same : SameRange memory other adr) :
    read other adr maxpathlen = read memory adr maxpathlen :=
  List.map_congr_left fun j inside => same j (List.mem_range.mp inside)

theorem Starts.same {memory other : Memory} {adr k : Nat} {path : List UInt8}
    (starts : Starts memory adr path k) (fits : k ≤ maxpathlen)
    (same : SameRange memory other adr) :
    Starts other adr path k := by
  intro j below
  rw [same j (by omega)]
  exact starts j below

theorem Starts.next {memory : Memory} {adr k : Nat} {path : List UInt8}
    (starts : Starts memory adr path k) {byte : UInt8} (written : byte = path.getD k 0) :
    Starts (Function.update memory (adr + k) byte) adr path (k + 1) := by
  intro j below
  rcases Nat.lt_succ_iff_lt_or_eq.mp below with earlier | rfl
  · rw [Function.update_of_ne (by omega)]
    exact starts j earlier
  · rw [Function.update_self, written]

theorem Starts.prefix_read {memory : Memory} {adr : Nat} {path : List UInt8}
    (starts : Starts memory adr path path.length) (fits : path.length ≤ maxpathlen) :
    path <+: read memory adr maxpathlen := by
  rw [List.prefix_iff_eq_take]
  apply List.ext_getElem
  · simp [read, fits]
  · intro j inside _
    simp [read, starts j inside, List.getD_eq_getElem?_getD, inside]

theorem sameRange_poke {memory : Memory} {adr a : Nat} {byte : UInt8}
    (outside : a < adr ∨ adr + maxpathlen ≤ a) :
    SameRange memory (Function.update memory a byte) adr := by
  intro j inside
  exact Function.update_of_ne (by omega) _ _

/-! ## What holds between steps -/

def Pc.Inside : Pc → Prop
  | .filling _ _ | .copying _ | .failing | .unlocking => True
  | _ => False

def Thread.Untouched (thread : Thread) (call : Call) (memory : Memory) : Prop :=
  read memory call.adr maxpathlen = thread.before

variable (system) in
def Thread.At (thread : Thread) (call : Call) (memory : Memory) : Prop :=
  match thread.pc with
  | .start => True
  | .answering path k =>
      alone system call = .ok path ∧ path.length ≤ maxpathlen ∧ k ≤ path.length ∧
        Starts memory call.adr path k
  | .checking =>
      osFcntl system call.first call.adr = .error efault ∧ ¬ call.adr < lowMemory ∧
        thread.Untouched call memory
  | .locking => Fallback system call ∧ thread.Untouched call memory
  | .filling path k =>
      Fallback system call ∧ call.second = .ok path ∧ k ≤ path.length ∧
        Starts memory system.pathbuf path k ∧ thread.Untouched call memory
  | .copying k =>
      Fallback system call ∧ k ≤ maxpathlen ∧ ∃ path, call.second = .ok path ∧
        Starts memory system.pathbuf path path.length ∧
        Starts memory call.adr path (min k path.length)
  | .failing =>
      Fallback system call ∧ call.second = .error thread.errno ∧ thread.Untouched call memory
  | .unlocking =>
      Fallback system call ∧ ∃ path, call.second = .ok path ∧
        Starts memory call.adr path path.length
  | .fault => False

variable (system) in
structure Thread.Good (thread : Thread) (calls : List Call) (memory : Memory) : Prop where
  here : ∀ call rest, thread.todo = call :: rest → thread.At system call memory
  idle : thread.todo = [] → thread.pc = .start
  made : thread.history.map Return.call ++ thread.todo = calls
  meets : ∀ r ∈ thread.history, r.Meets system

variable (system) in
structure Apart (calls : Nat → List Call) : Prop where
  threads : ∀ i j, i ≠ j → ∀ a ∈ calls i, ∀ b ∈ calls j,
    a.adr + maxpathlen ≤ b.adr ∨ b.adr + maxpathlen ≤ a.adr
  pathbuf : ∀ i, ∀ a ∈ calls i,
    a.adr + maxpathlen ≤ system.pathbuf ∨ system.pathbuf + maxpathlen ≤ a.adr

variable (system) in
/-- What holds of a state: one thread at most has the lock. -/
structure Sound (calls : Nat → List Call) (s : State) : Prop where
  good : ∀ i, (s.threads i).Good system (calls i) s.memory
  locked : ∀ i, s.pathLock = some i ↔ (s.threads i).pc.Inside

theorem Thread.At.same {thread : Thread} {call : Call} {memory other : Memory}
    (here : thread.At system call memory) (buffer : SameRange memory other call.adr)
    (pathbuf : thread.pc.Inside → SameRange memory other system.pathbuf) :
    thread.At system call other := by
  have untouched : thread.Untouched call memory → thread.Untouched call other :=
    fun untouched => (read_same buffer).trans untouched
  unfold Thread.At at here ⊢
  cases at_pc : thread.pc with
  | start => trivial
  | answering path k =>
      simp only [at_pc] at here ⊢
      obtain ⟨answer, fits, most, starts⟩ := here
      exact ⟨answer, fits, most, starts.same (by omega) buffer⟩
  | checking =>
      simp only [at_pc] at here ⊢
      exact ⟨here.1, here.2.1, untouched here.2.2⟩
  | locking =>
      simp only [at_pc] at here ⊢
      exact ⟨here.1, untouched here.2⟩
  | filling path k =>
      simp only [at_pc] at here ⊢
      obtain ⟨fallback, said, most, starts, same⟩ := here
      have fits := call.short path (.inr said)
      have shared := pathbuf (by rw [at_pc]; trivial)
      exact ⟨fallback, said, most, starts.same (by omega) shared, untouched same⟩
  | copying k =>
      simp only [at_pc] at here ⊢
      obtain ⟨fallback, most, path, said, filled, starts⟩ := here
      have fits := call.short path (.inr said)
      have shared := pathbuf (by rw [at_pc]; trivial)
      exact ⟨fallback, most, path, said, filled.same fits shared, starts.same (by omega) buffer⟩
  | failing =>
      simp only [at_pc] at here ⊢
      exact ⟨here.1, here.2.1, untouched here.2.2⟩
  | unlocking =>
      simp only [at_pc] at here ⊢
      obtain ⟨fallback, path, said, starts⟩ := here
      exact ⟨fallback, path, said, starts.same (call.short path (.inr said)) buffer⟩
  | fault => simp only [at_pc] at here

theorem Thread.Good.same {thread : Thread} {calls : List Call} {memory other : Memory}
    (good : thread.Good system calls memory)
    (buffers : ∀ call ∈ calls, SameRange memory other call.adr)
    (pathbuf : thread.pc.Inside → SameRange memory other system.pathbuf) :
    thread.Good system calls other where
  here call rest todo := by
    refine (good.here call rest todo).same (buffers call ?_) pathbuf
    rw [← good.made, todo]
    simp
  idle := good.idle
  made := good.made
  meets := good.meets

theorem Thread.Good.return {thread : Thread} {calls : List Call} {memory : Memory}
    (good : thread.Good system calls memory) {call : Call} {rest : List Call}
    (todo : thread.todo = call :: rest) {ret : Int} {errno : Errno} {before : List UInt8}
    (meets : Return.Meets system
      ⟨call, ret, errno, before, read memory call.adr maxpathlen⟩) :
    (Thread.return { thread with errno, before } call rest memory ret).Good system calls
      memory where
  here _ _ _ := trivial
  idle _ := rfl
  made := by
    rw [← good.made, todo]
    simp [Thread.return]
  meets r among := by
    rcases List.mem_append.mp among with earlier | last
    · exact good.meets r earlier
    · rw [List.mem_singleton.mp last]
      exact meets

theorem Thread.Good.move {thread : Thread} {calls : List Call} {memory other : Memory}
    (good : thread.Good system calls memory) {call : Call} {rest : List Call}
    (todo : thread.todo = call :: rest) {pc : Pc} {errno : Errno} {before : List UInt8}
    (here : Thread.At system { thread with pc, errno, before } call other) :
    Thread.Good system { thread with pc, errno, before } calls other where
  here first _ also := by
    cases todo.symm.trans also
    exact here
  idle none := by
    rw [todo] at none
    cases none
  made := good.made
  meets := good.meets

/-! ## A step -/

variable {calls : Nat → List Call} {s : State} {i : Nat}

theorem Sound.put (sound : Sound system calls s) {thread : Thread} {memory : Memory}
    {lock : Option Nat} (good : thread.Good system (calls i) memory)
    (buffers : ∀ j, j ≠ i → ∀ call ∈ calls j, SameRange s.memory memory call.adr)
    (pathbuf : ∀ j, j ≠ i → s.pathLock = some j → SameRange s.memory memory system.pathbuf)
    (own : lock = some i ↔ thread.pc.Inside)
    (others : ∀ j, j ≠ i → (lock = some j ↔ s.pathLock = some j)) :
    Sound system calls ⟨Function.update s.threads i thread, memory, lock⟩ where
  good j := by
    rcases eq_or_ne j i with rfl | differs
    · simpa using good
    · have other := (sound.good j).same (buffers j differs) fun inside =>
        pathbuf j differs ((sound.locked j).mpr inside)
      simpa [differs] using other
  locked j := by
    rcases eq_or_ne j i with rfl | differs
    · simpa using own
    · simpa [differs] using (others j differs).trans (sound.locked j)

theorem Sound.local (sound : Sound system calls s) {thread : Thread}
    (good : thread.Good system (calls i) s.memory)
    (inside : thread.pc.Inside ↔ (s.threads i).pc.Inside) :
    Sound system calls (s.put i thread) :=
  sound.put good (fun _ _ _ _ _ _ => rfl) (fun _ _ _ _ _ => rfl)
    ((sound.locked i).trans inside.symm) fun _ _ => Iff.rfl

theorem Sound.write (apart : Apart system calls) (sound : Sound system calls s) {call : Call}
    (own : call ∈ calls i) {k : Nat} (below : k < maxpathlen) {byte : UInt8} {thread : Thread}
    (good : thread.Good system (calls i) (Function.update s.memory (call.adr + k) byte))
    (inside : thread.pc.Inside ↔ (s.threads i).pc.Inside) :
    Sound system calls ((s.poke (call.adr + k) byte).put i thread) := by
  refine sound.put good ?_ ?_ ((sound.locked i).trans inside.symm) fun _ _ => Iff.rfl
  · intro j differs other among
    apply sameRange_poke
    have := apart.threads i j differs.symm call own other among
    omega
  · intro j _ _
    apply sameRange_poke
    have := apart.pathbuf i call own
    omega

theorem Sound.share (apart : Apart system calls) (sound : Sound system calls s) {k : Nat}
    (below : k < maxpathlen) {byte : UInt8} {thread : Thread}
    (good : thread.Good system (calls i) (Function.update s.memory (system.pathbuf + k) byte))
    (inside : thread.pc.Inside) (before : (s.threads i).pc.Inside) :
    Sound system calls ((s.poke (system.pathbuf + k) byte).put i thread) := by
  have mine := (sound.locked i).mpr before
  refine sound.put good ?_ ?_ (iff_of_true mine inside) fun _ _ => Iff.rfl
  · intro j _ other among
    apply sameRange_poke
    have := apart.pathbuf j other among
    omega
  · intro j differs holds
    rw [mine] at holds
    cases holds
    exact absurd rfl differs

theorem Sound.release (sound : Sound system calls s) (before : (s.threads i).pc.Inside)
    {thread : Thread} (good : thread.Good system (calls i) s.memory) (out : ¬ thread.pc.Inside) :
    Sound system calls ({ s with pathLock := none }.put i thread) := by
  have mine := (sound.locked i).mpr before
  refine sound.put good (fun _ _ _ _ _ _ => rfl) (fun _ _ _ _ _ => rfl)
    (iff_of_false (by simp) out) fun j differs => ?_
  rw [mine]
  simp [differs.symm]

theorem Sound.acquire (sound : Sound system calls s) (free : s.pathLock = none)
    {thread : Thread} (good : thread.Good system (calls i) s.memory) (inside : thread.pc.Inside) :
    Sound system calls ({ s with pathLock := some i }.put i thread) := by
  refine sound.put good (fun _ _ _ _ _ _ => rfl) (fun _ _ _ _ _ => rfl)
    (iff_of_true rfl inside) fun j differs => ?_
  rw [free]
  simp [differs.symm]

section Steps

variable {call : Call} {rest : List Call} {thread : Thread}

theorem meets_ok {ret : Int} {errno : Errno} {before : List UInt8} {memory : Memory}
    {path : List UInt8} (answer : alone system call = .ok path) (fits : path.length ≤ maxpathlen)
    (starts : Starts memory call.adr path path.length) (returned : ret = 0) :
    Return.Meets system ⟨call, ret, errno, before, read memory call.adr maxpathlen⟩ := by
  simp only [Return.Meets, answer]
  exact ⟨returned, starts.prefix_read fits⟩

theorem meets_error {ret : Int} {errno : Errno} {before : List UInt8} {memory : Memory}
    (answer : alone system call = .error errno) (returned : ret = -1)
    (untouched : read memory call.adr maxpathlen = before) :
    Return.Meets system ⟨call, ret, errno, before, read memory call.adr maxpathlen⟩ := by
  simp only [Return.Meets, answer]
  exact ⟨returned, trivial, untouched⟩

theorem own_mem {memory : Memory} {calls : List Call} (good : thread.Good system calls memory)
    (todo : thread.todo = call :: rest) : call ∈ calls := by
  rw [← good.made, todo]
  simp

theorem step_start (sound : Sound system calls s) (todo : (s.threads i).todo = call :: rest)
    (at_pc : (s.threads i).pc = .start) :
    Sound system calls (stepCall system s i (s.threads i) call rest) := by
  have good := sound.good i
  have out : ¬ (s.threads i).pc.Inside := by
    rw [at_pc]
    exact id
  simp only [stepCall, at_pc]
  split
  next path answer =>
    have known : alone system call = .ok path := by simp only [alone, answer]
    have fits := call.short path (.inl (osFcntl_ok answer))
    refine sound.local (good.move todo ⟨known, fits, Nat.zero_le _, ?_⟩) (iff_of_false id out)
    intro j below
    omega
  next error refused =>
    split
    next other =>
      refine sound.local (good.return todo ?_) (iff_of_false id out)
      exact meets_error (alone_punt refused (.inl other)) rfl rfl
    next fault =>
      split
      next low =>
        refine sound.local (good.return todo ?_) (iff_of_false id out)
        exact meets_error (alone_punt refused (.inr (.inl low))) rfl rfl
      next high =>
        rw [not_not] at fault
        subst fault
        refine sound.local (good.move todo ⟨refused, high, ?_⟩) (iff_of_false id out)
        simp only [Thread.Untouched]

theorem step_answering (apart : Apart system calls) (sound : Sound system calls s)
    (todo : (s.threads i).todo = call :: rest) {path : List UInt8} {k : Nat}
    (at_pc : (s.threads i).pc = .answering path k) :
    Sound system calls (stepCall system s i (s.threads i) call rest) := by
  have good := sound.good i
  have out : ¬ (s.threads i).pc.Inside := by
    rw [at_pc]
    exact id
  have here := good.here call rest todo
  simp only [Thread.At, at_pc] at here
  obtain ⟨known, fits, most, starts⟩ := here
  simp only [stepCall, at_pc]
  split
  next below =>
    refine sound.write apart (own_mem good todo) (by omega) ?_ (iff_of_false id out)
    exact good.move todo ⟨known, fits, below, starts.next rfl⟩
  next done =>
    have whole : k = path.length := by omega
    subst whole
    refine sound.local (good.return todo ?_) (iff_of_false id out)
    exact meets_ok known fits starts rfl

theorem step_checking (sound : Sound system calls s) (todo : (s.threads i).todo = call :: rest)
    (at_pc : (s.threads i).pc = .checking) :
    Sound system calls (stepCall system s i (s.threads i) call rest) := by
  have good := sound.good i
  have out : ¬ (s.threads i).pc.Inside := by
    rw [at_pc]
    exact id
  have here := good.here call rest todo
  simp only [Thread.At, at_pc] at here
  obtain ⟨refused, high, untouched⟩ := here
  simp only [stepCall, at_pc]
  split
  next denied =>
    rw [ne_eq, check_iff, Bool.not_eq_true] at denied
    refine sound.local (good.return todo ?_) (iff_of_false id out)
    exact meets_error (alone_punt refused (.inr (.inr denied))) rfl untouched
  next allowed =>
    rw [not_not, check_iff] at allowed
    exact sound.local (good.move todo ⟨⟨refused, high, allowed⟩, untouched⟩) (iff_of_false id out)

theorem step_locking (sound : Sound system calls s) (todo : (s.threads i).todo = call :: rest)
    (at_pc : (s.threads i).pc = .locking) :
    Sound system calls (stepCall system s i (s.threads i) call rest) := by
  have good := sound.good i
  have here := good.here call rest todo
  simp only [Thread.At, at_pc] at here
  obtain ⟨fallback, untouched⟩ := here
  simp only [stepCall, at_pc]
  split
  next free =>
    rw [osFcntl_pathbuf]
    split
    next path said =>
      refine sound.acquire free (good.move todo ⟨fallback, said, Nat.zero_le _, ?_, untouched⟩)
        trivial
      intro j below
      omega
    next error said =>
      exact sound.acquire free (good.move todo ⟨fallback, said, untouched⟩) trivial
  next held => exact sound

theorem step_filling (apart : Apart system calls) (sound : Sound system calls s)
    (todo : (s.threads i).todo = call :: rest) {path : List UInt8} {k : Nat}
    (at_pc : (s.threads i).pc = .filling path k) :
    Sound system calls (stepCall system s i (s.threads i) call rest) := by
  have good := sound.good i
  have inside : (s.threads i).pc.Inside := by
    rw [at_pc]
    trivial
  have own := own_mem good todo
  have here := good.here call rest todo
  simp only [Thread.At, at_pc] at here
  obtain ⟨fallback, said, most, starts, untouched⟩ := here
  have fits := call.short path (.inr said)
  simp only [stepCall, at_pc]
  split
  next below =>
    have aside : SameRange s.memory
        (Function.update s.memory (system.pathbuf + k) (path.getD k 0)) call.adr := by
      apply sameRange_poke
      have := apart.pathbuf i call own
      omega
    refine sound.share apart (by omega) (good.move todo ?_) trivial inside
    exact ⟨fallback, said, below, starts.next rfl, (read_same aside).trans untouched⟩
  next done =>
    have whole : k = path.length := by omega
    subst whole
    refine sound.local (good.move todo ⟨fallback, Nat.zero_le _, path, said, starts, ?_⟩)
      (iff_of_true trivial inside)
    intro j below
    omega

theorem step_copying (apart : Apart system calls) (sound : Sound system calls s)
    (todo : (s.threads i).todo = call :: rest) {k : Nat}
    (at_pc : (s.threads i).pc = .copying k) :
    Sound system calls (stepCall system s i (s.threads i) call rest) := by
  have good := sound.good i
  have inside : (s.threads i).pc.Inside := by
    rw [at_pc]
    trivial
  have own := own_mem good todo
  have here := good.here call rest todo
  simp only [Thread.At, at_pc] at here
  obtain ⟨fallback, most, path, said, filled, starts⟩ := here
  have fits := call.short path (.inr said)
  simp only [stepCall, at_pc]
  split
  next below =>
    have writable : Writable system.map.regions (call.adr + k) 1 = true :=
      writable_part fallback.2.2 (by omega)
    rw [if_pos writable]
    have aside : SameRange s.memory (Function.update s.memory (call.adr + k)
        (s.memory (system.pathbuf + k))) system.pathbuf := by
      apply sameRange_poke
      have := apart.pathbuf i call own
      omega
    refine sound.write apart own below (good.move todo ?_) (iff_of_true trivial inside)
    refine ⟨fallback, Nat.succ_le_of_lt below, path, said, filled.same fits aside, ?_⟩
    by_cases part : k < path.length
    · rw [Nat.min_eq_left part.le] at starts
      rw [Nat.min_eq_left part]
      exact starts.next (filled k part)
    · -- What follows the path is copied too, and does not change what stands before.
      rw [Nat.min_eq_right (by omega)] at starts ⊢
      intro j early
      rw [Function.update_of_ne (by omega)]
      exact starts j early
  next done =>
    rw [Nat.min_eq_right (by omega)] at starts
    exact sound.local (good.move todo ⟨fallback, path, said, starts⟩) (iff_of_true trivial inside)

theorem step_failing (sound : Sound system calls s) (todo : (s.threads i).todo = call :: rest)
    (at_pc : (s.threads i).pc = .failing) :
    Sound system calls (stepCall system s i (s.threads i) call rest) := by
  have good := sound.good i
  have inside : (s.threads i).pc.Inside := by
    rw [at_pc]
    trivial
  have here := good.here call rest todo
  simp only [Thread.At, at_pc] at here
  obtain ⟨fallback, said, untouched⟩ := here
  simp only [stepCall, at_pc]
  refine sound.release inside (good.return todo ?_) id
  exact meets_error ((alone_fallback fallback).trans said) rfl untouched

theorem step_unlocking (sound : Sound system calls s) (todo : (s.threads i).todo = call :: rest)
    (at_pc : (s.threads i).pc = .unlocking) :
    Sound system calls (stepCall system s i (s.threads i) call rest) := by
  have good := sound.good i
  have inside : (s.threads i).pc.Inside := by
    rw [at_pc]
    trivial
  have here := good.here call rest todo
  simp only [Thread.At, at_pc] at here
  obtain ⟨fallback, path, said, starts⟩ := here
  simp only [stepCall, at_pc]
  refine sound.release inside (good.return todo ?_) id
  exact meets_ok ((alone_fallback fallback).trans said) (call.short path (.inr said)) starts rfl

end Steps

theorem step_sound (apart : Apart system calls) (sound : Sound system calls s) (i : Nat) :
    Sound system calls (step system s i) := by
  unfold step
  split
  next => exact sound
  next call rest todo =>
    cases at_pc : (s.threads i).pc with
    | start => exact step_start sound todo at_pc
    | answering path k => exact step_answering apart sound todo at_pc
    | checking => exact step_checking sound todo at_pc
    | locking => exact step_locking sound todo at_pc
    | filling path k => exact step_filling apart sound todo at_pc
    | copying k => exact step_copying apart sound todo at_pc
    | failing => exact step_failing sound todo at_pc
    | unlocking => exact step_unlocking sound todo at_pc
    | fault =>
        have here := (sound.good i).here call rest todo
        simp only [Thread.At, at_pc] at here

theorem sound_initial (calls : Nat → List Call) (memory : Memory) :
    Sound system calls (.initial calls memory) where
  good i := ⟨fun _ _ _ => trivial, fun _ => rfl, rfl, fun r among => nomatch among⟩
  locked i := iff_of_false (by simp [State.initial]) id

theorem run_sound (apart : Apart system calls) (sound : Sound system calls s)
    (schedule : List Nat) : Sound system calls (schedule.foldl (step system) s) := by
  have kept : ∀ s i, Sound system calls s → True → Sound system calls (step system s i) :=
    fun _ i sound _ => step_sound apart sound i
  exact Throughout.keeps kept sound (throughout_always (fun _ _ => True.intro) s schedule)

/-! ## Runs -/

def twoPages : VmMap 4096 where
  regions := [⟨4096, 4096, 3⟩, ⟨4294967296, 4096, 3⟩]
  nonempty := by decide
  pages := by decide
  addressable := by decide
  ordered := by decide

theorem twoPages_writable : Writable twoPages.regions 4096 maxpathlen = true := by
  rw [writable_iff]
  intro address lower upper
  refine ⟨⟨4096, 4096, 3⟩, by decide, ⟨lower, ?_⟩, rfl⟩
  simp only [Region.stop]
  simp only [maxpathlen] at upper
  omega

def highPage : System where
  page := 4096
  map := twoPages
  handles adr := decide (adr < lowMemory)
  pathbuf := 4096
  pages := by decide
  low _ below := decide_eq_true below
  pathbufLow := by decide
  pathbufWritable := twoPages_writable

def rootCall (adr : Nat) (below : adr < 4294971392) : Call where
  adr
  first := .ok [47, 0]
  second := .ok [47, 0]
  top := by
    simp only [maxpathlen]
    omega
  short path said := by
    rcases said with said | said <;> cases said <;> decide

def twoThreads : Nat → List Call
  | 0 => [rootCall 6144 (by decide), rootCall 4294967296 (by decide)]
  | 1 => [rootCall 7168 (by decide), rootCall 4294969344 (by decide)]
  | _ => []

theorem twoThreads_apart : Apart highPage twoThreads where
  threads
    | 0, 0, differs, _, _, _, _ => absurd rfl differs
    | 0, 1, _, _, first, _, second => by
        rcases List.mem_pair.mp first with rfl | rfl <;>
          rcases List.mem_pair.mp second with rfl | rfl <;> decide
    | 1, 0, _, _, first, _, second => by
        rcases List.mem_pair.mp first with rfl | rfl <;>
          rcases List.mem_pair.mp second with rfl | rfl <;> decide
    | 1, 1, differs, _, _, _, _ => absurd rfl differs
    | _ + 2, _, _, _, nobody, _, _ => nomatch nobody
    | _, _ + 2, _, _, _, _, nobody => nomatch nobody
  pathbuf
    | 0, _, among => by rcases List.mem_pair.mp among with rfl | rfl <;> decide
    | 1, _, among => by rcases List.mem_pair.mp among with rfl | rfl <;> decide
    | _ + 2, _, nobody => nomatch nobody

/-- In whatever order threads take their steps, each makes its calls one after the other, none of
them faults, and every one that has returned came to what it comes to alone. Whoever has the lock is
not waiting for it. -/
theorem getPath_runs (system : System) (calls : Nat → List Call) (memory : Memory)
    (apart : Apart system calls) (schedule : List Nat) (i : Nat) :
    let s := schedule.foldl (step system) (.initial calls memory)
    (s.threads i).history.map Return.call ++ (s.threads i).todo = calls i ∧
      (∀ r ∈ (s.threads i).history, r.Meets system) ∧
      (s.threads i).pc ≠ .fault ∧
      (s.pathLock = some i ↔ (s.threads i).pc.Inside) := by
  have sound := run_sound apart (sound_initial calls memory) schedule
  obtain ⟨here, idle, made, meets⟩ := sound.good i
  refine ⟨made, meets, ?_, sound.locked i⟩
  intro fault
  match todo : (State.threads (schedule.foldl (step system) (.initial calls memory)) i).todo with
  | [] =>
      rw [idle todo] at fault
      cases fault
  | call :: rest =>
      have here := here call rest todo
      simp only [Thread.At, fault] at here

theorem getPath_runs_twoThreads :
    let s := (List.replicate 8 [0, 1]).flatten.foldl (step highPage) (.initial twoThreads fun _ => 0)
    (s.threads 1).history.map Return.ret = [0] ∧ s.pathLock = some 0 ∧
      (s.threads 1).history.map Return.call ++ (s.threads 1).todo = twoThreads 1 ∧
      (∀ r ∈ (s.threads 1).history, r.Meets highPage) ∧
      (s.threads 1).pc ≠ .fault ∧
      (s.pathLock = some 1 ↔ (s.threads 1).pc.Inside) :=
  ⟨by decide +kernel, by decide +kernel,
    getPath_runs highPage twoThreads (fun _ => 0) twoThreads_apart _ 1⟩

/-! ## No deadlock -/

def Pc.left : Pc → Nat
  | .start => 2 * maxpathlen + 8
  | .answering path k => path.length - k + 1
  | .checking => 2 * maxpathlen + 7
  | .locking => 2 * maxpathlen + 6
  | .filling path k => maxpathlen + 4 + (path.length - k)
  | .copying k => maxpathlen + 2 - k
  | .failing | .unlocking => 1
  | .fault => 0

def Thread.left (thread : Thread) : Nat :=
  thread.todo.length * (3 * maxpathlen) + thread.pc.left

theorem step_other (s : State) {i j : Nat} (differs : j ≠ i) :
    (step system s i).threads j = s.threads j := by
  unfold step
  split
  next => rfl
  next call rest todo =>
    unfold stepCall
    repeat' split
    all_goals simp [State.put, State.poke, differs]

theorem return_left {thread : Thread} {call : Call} {rest : List Call} {memory : Memory} {ret : Int}
    {errno : Errno} {before : List UInt8} (todo : thread.todo = call :: rest) :
    (Thread.return { thread with errno, before } call rest memory ret).left < thread.left := by
  simp only [Thread.left, Thread.return, Pc.left, todo, List.length_cons, maxpathlen]
  omega

/-- Every step of a thread that is not waiting for the lock brings it nearer to its end. -/
theorem step_left (sound : Sound system calls s) {call : Call} {rest : List Call}
    (todo : (s.threads i).todo = call :: rest)
    (free : (s.threads i).pc = .locking → s.pathLock = none) :
    ((step system s i).threads i).left < (s.threads i).left := by
  have here := (sound.good i).here call rest todo
  unfold step
  rw [todo]
  unfold Thread.At at here
  unfold stepCall
  have short := call.short
  cases at_pc : (s.threads i).pc with
  | start =>
      simp only
      split
      next path answer =>
        have fits := short path (.inl (osFcntl_ok answer))
        simp [State.put, Thread.goto, Thread.left, at_pc, Pc.left]
        omega
      next error refused =>
        split
        next =>
          simp only [State.put, Function.update_self]
          exact return_left todo
        next =>
          split
          next =>
            simp only [State.put, Function.update_self]
            exact return_left todo
          next => simp [State.put, Thread.goto, Thread.left, at_pc, Pc.left]
  | answering path k =>
      simp only [at_pc] at here ⊢
      split
      next below =>
        simp [State.put, Thread.goto, Thread.left, at_pc, Pc.left]
        omega
      next =>
        simp only [State.put, Function.update_self]
        exact return_left todo
  | checking =>
      simp only
      split
      next =>
        simp only [State.put, Function.update_self]
        exact return_left todo
      next => simp [State.put, Thread.goto, Thread.left, at_pc, Pc.left]
  | locking =>
      simp only [osFcntl_pathbuf, if_pos (free at_pc)]
      split
      next path said =>
        have fits := short path (.inr said)
        simp [State.put, Thread.goto, Thread.left, at_pc, Pc.left]
        omega
      next =>
        simp [State.put, Thread.fail, Thread.left, at_pc, Pc.left]
  | filling path k =>
      simp only
      split
      next =>
        simp [State.put, Thread.goto, Thread.left, at_pc, Pc.left]
        omega
      next =>
        simp [State.put, Thread.goto, Thread.left, at_pc, Pc.left]
        omega
  | copying k =>
      simp only [at_pc] at here ⊢
      obtain ⟨fallback, most, _⟩ := here
      split
      next below =>
        have writable : Writable system.map.regions (call.adr + k) 1 = true :=
          writable_part fallback.2.2 (by omega)
        rw [if_pos writable]
        simp [State.put, Thread.goto, Thread.left, at_pc, Pc.left]
        omega
      next =>
        simp [State.put, Thread.goto, Thread.left, at_pc, Pc.left]
        omega
  | failing =>
      simp only [State.put, Function.update_self]
      exact return_left todo
  | unlocking =>
      simp only [State.put, Function.update_self]
      exact return_left todo
  | fault => simp only [at_pc] at here

theorem finishes_alone (apart : Apart system calls) (i : Nat) : ∀ (left : Nat) (s : State),
    Sound system calls s → (s.threads i).left < left →
    (∀ j, j ≠ i → s.pathLock ≠ some j) →
    ∃ n, (((List.replicate n i).foldl (step system) s).threads i).todo = [] := by
  intro left
  induction left with
  | zero => exact fun s _ none => absurd none (Nat.not_lt_zero _)
  | succ left ih =>
      intro s sound most free
      match todo : (s.threads i).todo with
      | [] => exact ⟨0, todo⟩
      | call :: rest =>
          have nearer := step_left sound todo fun waiting => by
            cases lock : s.pathLock with
            | none => rfl
            | some j =>
                have inside := (sound.locked j).mp lock
                rcases eq_or_ne j i with rfl | differs
                · rw [waiting] at inside
                  exact inside.elim
                · exact absurd lock (free j differs)
          have after := step_sound apart sound i
          obtain ⟨n, done⟩ := ih _ after (by omega) fun j differs lock => by
            have inside := (after.locked j).mp lock
            rw [step_other s differs] at inside
            exact free j differs ((sound.locked j).mpr inside)
          exact ⟨n + 1, done⟩

theorem releases (apart : Apart system calls) (j : Nat) : ∀ (left : Nat) (s : State),
    Sound system calls s → (s.threads j).left < left → s.pathLock = some j →
    ∃ n, ((List.replicate n j).foldl (step system) s).pathLock = none := by
  intro left
  induction left with
  | zero => exact fun s _ none => absurd none (Nat.not_lt_zero _)
  | succ left ih =>
      intro s sound most lock
      have inside := (sound.locked j).mp lock
      have busy : (s.threads j).todo ≠ [] := fun idle => by
        rw [(sound.good j).idle idle] at inside
        exact inside
      obtain ⟨call, rest, todo⟩ := List.exists_cons_of_ne_nil busy
      have nearer := step_left sound todo fun waiting => by
        rw [waiting] at inside
        exact inside.elim
      have after := step_sound apart sound j
      cases held : (step system s j).pathLock with
      | none => exact ⟨1, held⟩
      | some k =>
          have other : k = j := by
            by_contra differs
            have taken := (after.locked k).mp held
            rw [step_other s differs] at taken
            have mine := (sound.locked k).mpr taken
            rw [lock] at mine
            cases mine
            exact differs rfl
          subst other
          obtain ⟨n, released⟩ := ih _ after (by omega) held
          exact ⟨n + 1, released⟩

/-- There is no deadlock: whatever has happened, every thread can come to the end of its calls. -/
theorem getPath_finishes (system : System) (calls : Nat → List Call) (memory : Memory)
    (apart : Apart system calls) (schedule : List Nat) (i : Nat) :
    ∃ more, (((schedule ++ more).foldl (step system) (.initial calls memory)).threads i).todo =
      [] := by
  have sound := run_sound apart (sound_initial calls memory) schedule
  simp only [List.foldl_append]
  revert sound
  generalize schedule.foldl (step system) (.initial calls memory) = s
  intro sound
  cases lock : s.pathLock with
  | none =>
      obtain ⟨n, done⟩ := finishes_alone apart i _ s sound (Nat.lt_succ_self _) fun j _ held => by
        rw [lock] at held
        cases held
      exact ⟨_, done⟩
  | some j =>
      obtain ⟨m, released⟩ := releases apart j _ s sound (Nat.lt_succ_self _) lock
      have later := run_sound apart sound (List.replicate m j)
      obtain ⟨n, done⟩ := finishes_alone apart i _ _ later (Nat.lt_succ_self _) fun k _ held => by
        rw [released] at held
        cases held
      refine ⟨List.replicate m j ++ List.replicate n i, ?_⟩
      rw [List.foldl_append]
      exact done

theorem getPath_finishes_twoThreads :
    ∃ more, ((((List.replicate 8 [0, 1]).flatten ++ more).foldl (step highPage)
      (.initial twoThreads fun _ => 0)).threads 1).todo = [] :=
  getPath_finishes highPage twoThreads (fun _ => 0) twoThreads_apart _ 1

end LegacySupport.GetPath
