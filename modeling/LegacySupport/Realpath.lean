import LegacySupport.Runs

/-!
`realpath_internal` of `realpath.c`: the system's function is looked up once for each version, and a
buffer is allocated for a caller who gives none.
-/

namespace LegacySupport.Realpath

open Runs

abbrev Errno := Nat
abbrev Path := List UInt8

def enomem : Errno := 12

inductive Version
  | basic
  | posix
  | darwin
  deriving DecidableEq

inductive Buffer
  | caller (i : Nat)
  | heap (i : Nat)
  deriving DecidableEq

structure System where
  exports : Version → Bool
  freeErrno : Errno → Errno

/-- The cached addresses, the blocks allocated and not freed, the contents of buffers, and
`errno`. -/
structure Process where
  rpAdr : Version → Option Version
  live : Finset Nat
  next : Nat
  contents : Buffer → Path
  errno : Errno

def Process.initial (contents : Buffer → Path) : Process := ⟨fun _ => none, ∅, 0, contents, 0⟩

/-- A call, with what the system's functions do with a path as the files are then. A path that
cannot be resolved leaves something in the buffer too. -/
structure Call where
  version : Version
  fileName : Path
  resolvedName : Option Nat
  memory : Bool
  resolve : Version → Path → Except Errno Path
  partly : Version → Path → Path

variable (system : System)

def dlsym (version : Version) : Option Version :=
  if system.exports version then some version else none

def locate (version : Version) (rpAdr : Version → Option Version) :
    Option Version × (Version → Option Version) :=
  match rpAdr version with
  | some found => (some found, rpAdr)
  | none =>
      let found := dlsym system version
      let found := if found = none ∧ version ≠ .basic then dlsym system .basic else found
      (found, Function.update rpAdr version found)

def osRealpath (call : Call) (found : Version) (buffer : Buffer) (p : Process) :
    Option Buffer × Process :=
  match call.resolve found call.fileName with
  | .ok path => (some buffer, { p with contents := Function.update p.contents buffer path })
  | .error error =>
      (none, { p with
        contents := Function.update p.contents buffer (call.partly found call.fileName)
        errno := error })

def realpathInternal (call : Call) (p : Process) : Option (Option Buffer × Process) :=
  match locate system call.version p.rpAdr with
  | (none, _) => none
  | (some found, rpAdr) =>
      let p := { p with rpAdr }
      match call.resolvedName with
      | some i => some (osRealpath call found (.caller i) p)
      | none =>
          if call.memory = false then some (none, { p with errno := enomem })
          else
            let buf := p.next
            let p := { p with live := insert buf p.live, next := p.next + 1 }
            match osRealpath call found (.heap buf) p with
            | (some result, p) => some (some result, p)
            | (none, p) =>
                let savedErrno := p.errno
                let p := { p with live := p.live.erase buf, errno := system.freeErrno p.errno }
                some (none, { p with errno := savedErrno })

def run : List Call → Process → Option (List (Option Buffer) × Process)
  | [], p => some ([], p)
  | call :: calls, p => do
      let (result, p) ← realpathInternal system call p
      let (results, p) ← run calls p
      return (result :: results, p)

/-! ## Without a cache -/

def osVersion (version : Version) : Version := if system.exports version then version else .basic

/-- What a call comes to: the result is written to the caller's buffer or to a block of its own,
which stays allocated only if it is returned. -/
def plainRealpath (call : Call) (p : Process) : Option Buffer × Process :=
  let found := osVersion system call.version
  match call.resolvedName, call.memory, call.resolve found call.fileName with
  | some i, _, .ok path =>
      (some (.caller i), { p with contents := Function.update p.contents (.caller i) path })
  | some i, _, .error error =>
      (none, { p with
        contents := Function.update p.contents (.caller i) (call.partly found call.fileName)
        errno := error })
  | none, false, _ => (none, { p with errno := enomem })
  | none, true, .ok path =>
      (some (.heap p.next), { p with
        live := insert p.next p.live
        next := p.next + 1
        contents := Function.update p.contents (.heap p.next) path })
  | none, true, .error error =>
      (none, { p with
        next := p.next + 1
        contents := Function.update p.contents (.heap p.next) (call.partly found call.fileName)
        errno := error })

def plainRun : List Call → Process → List (Option Buffer) × Process
  | [], p => ([], p)
  | call :: calls, p =>
      let (result, p) := plainRealpath system call p
      let (results, p) := plainRun calls p
      (result :: results, p)

def Found (version : Version) : Prop := system.exports version ∨ system.exports .basic

/-- A state that a process can be in: what is cached is what would be found, and the block allocated
next is not in use. -/
structure Sound (p : Process) : Prop where
  cached : ∀ version found, p.rpAdr version = some found →
    found = osVersion system version ∧ Found system version
  fresh : ∀ i ∈ p.live, i < p.next

variable {system}

theorem dlsym_found {version : Version} (there : Found system version) :
    (if dlsym system version = none ∧ version ≠ .basic then dlsym system .basic
      else dlsym system version) = some (osVersion system version) := by
  unfold dlsym osVersion
  by_cases exported : system.exports version = true
  · simp [exported]
  · have basic := there.resolve_left exported
    have other : version ≠ .basic := by
      rintro rfl
      exact exported basic
    simp [exported, basic, other]

theorem dlsym_missing {version : Version} (missing : ¬ Found system version) :
    (if dlsym system version = none ∧ version ≠ .basic then dlsym system .basic
      else dlsym system version) = none := by
  rw [Found, not_or] at missing
  unfold dlsym
  simp [missing.1, missing.2]

theorem locate_found {p : Process} (sound : Sound system p) {version : Version}
    (there : Found system version) :
    ∃ rpAdr, locate system version p.rpAdr = (some (osVersion system version), rpAdr) ∧
      Sound system { p with rpAdr } := by
  unfold locate
  split
  next found cached =>
    obtain ⟨rfl, -⟩ := sound.cached version found cached
    exact ⟨_, rfl, sound⟩
  next =>
    dsimp only
    rw [dlsym_found there]
    refine ⟨_, rfl, ?_, sound.fresh⟩
    intro other found cached
    dsimp only at cached
    rcases eq_or_ne other version with rfl | differs
    · rw [Function.update_self] at cached
      cases cached
      exact ⟨rfl, there⟩
    · rw [Function.update_of_ne differs] at cached
      exact sound.cached other found cached

theorem locate_missing {p : Process} (sound : Sound system p) {version : Version}
    (missing : ¬ Found system version) : (locate system version p.rpAdr).1 = none := by
  unfold locate
  split
  next found cached => exact absurd (sound.cached version found cached).2 missing
  next => exact dlsym_missing missing

/-! ## Calls -/

theorem plainRealpath_live (system : System) {p : Process} (fresh : ∀ i ∈ p.live, i < p.next)
    (call : Call) (i : Nat) :
    (i ∈ (plainRealpath system call p).2.live ↔
      i ∈ p.live ∨ (plainRealpath system call p).1 = some (.heap i)) ∧
    ((plainRealpath system call p).1 = some (.heap i) → i = p.next) ∧
    (∀ j ∈ (plainRealpath system call p).2.live, j < (plainRealpath system call p).2.next) ∧
    p.next ≤ (plainRealpath system call p).2.next := by
  unfold plainRealpath
  cases call.resolvedName <;> cases call.memory <;>
    cases call.resolve (osVersion system call.version) call.fileName <;>
    simp <;> grind

theorem realpathInternal_found {p : Process} (sound : Sound system p) {call : Call}
    (there : Found system call.version) :
    ∃ rpAdr, realpathInternal system call p =
        some ((plainRealpath system call p).1, { (plainRealpath system call p).2 with rpAdr }) ∧
      Sound system { (plainRealpath system call p).2 with rpAdr } := by
  obtain ⟨rpAdr, located, known⟩ := locate_found sound there
  have erased : (insert p.next p.live).erase p.next = p.live :=
    Finset.erase_insert fun used => (sound.fresh _ used).false
  refine ⟨rpAdr, ?_, known.cached, ?_⟩
  · unfold realpathInternal plainRealpath osRealpath
    rw [located]
    cases call.resolvedName <;> cases call.memory <;>
      cases resolved : call.resolve (osVersion system call.version) call.fileName <;>
      simp [erased, resolved]
  · exact (plainRealpath_live system sound.fresh call 0).2.2.1

theorem realpathInternal_missing {p : Process} (sound : Sound system p) {call : Call}
    (missing : ¬ Found system call.version) : realpathInternal system call p = none := by
  have nothing := locate_missing sound missing
  unfold realpathInternal
  split
  next => rfl
  next found _ located =>
    rw [located] at nothing
    cases nothing

theorem plainRealpath_cache (system : System) (call : Call) (p : Process)
    (rpAdr : Version → Option Version) :
    plainRealpath system call { p with rpAdr } =
      ((plainRealpath system call p).1, { (plainRealpath system call p).2 with rpAdr }) := by
  unfold plainRealpath
  cases call.resolvedName <;> cases call.memory <;>
    cases resolved : call.resolve (osVersion system call.version) call.fileName <;>
    simp [resolved]

theorem plainRun_cache (system : System) (calls : List Call) (p : Process)
    (rpAdr : Version → Option Version) :
    plainRun system calls { p with rpAdr } =
      ((plainRun system calls p).1, { (plainRun system calls p).2 with rpAdr }) := by
  induction calls generalizing p with
  | nil => rfl
  | cons call calls ih =>
      simp only [plainRun]
      rw [plainRealpath_cache, ih]

/-! ## Runs -/

theorem run_found {calls : List Call} {p : Process} (sound : Sound system p)
    (there : ∀ call ∈ calls, Found system call.version) :
    ∃ rpAdr, run system calls p =
      some ((plainRun system calls p).1, { (plainRun system calls p).2 with rpAdr }) := by
  induction calls generalizing p with
  | nil => exact ⟨p.rpAdr, rfl⟩
  | cons call calls ih =>
      obtain ⟨rpAdr, called, known⟩ := realpathInternal_found sound (there call (by simp))
      obtain ⟨after, later⟩ := ih known fun other among => there other (by simp [among])
      refine ⟨after, ?_⟩
      simp only [run, called, later, plainRun, plainRun_cache, Option.bind_eq_bind,
        Option.bind_some, Option.pure_def]

theorem run_missing {calls : List Call} {p : Process} (sound : Sound system p) {call : Call}
    (among : call ∈ calls) (missing : ¬ Found system call.version) :
    run system calls p = none := by
  induction calls generalizing p with
  | nil => cases among
  | cons first calls ih =>
      by_cases there : Found system first.version
      · obtain ⟨rpAdr, called, known⟩ := realpathInternal_found sound there
        have later : call ∈ calls := by
          rcases List.mem_cons.mp among with rfl | later
          · exact absurd there missing
          · exact later
        simp [run, called, ih known later]
      · simp [run, realpathInternal_missing sound there]

theorem plainRun_live (system : System) (calls : List Call) {p : Process}
    (fresh : ∀ i ∈ p.live, i < p.next) (i : Nat) :
    (i ∈ (plainRun system calls p).2.live ↔
      i ∈ p.live ∨ some (.heap i) ∈ (plainRun system calls p).1) ∧
    (plainRun system calls p).1.count (some (.heap i)) ≤ 1 ∧
    (i < p.next → some (.heap i) ∉ (plainRun system calls p).1) := by
  induction calls generalizing p with
  | nil => simp [plainRun]
  | cons call calls ih =>
      obtain ⟨blocks, own, fresh', grown⟩ := plainRealpath_live system fresh call i
      obtain ⟨later, once, earlier⟩ := ih fresh'
      simp only [plainRun, List.mem_cons, List.count_cons, beq_iff_eq]
      by_cases returned : (plainRealpath system call p).1 = some (.heap i)
      · have taken : i ∈ (plainRealpath system call p).2.live := blocks.mpr (.inr returned)
        have never := List.count_eq_zero.mpr (earlier (fresh' i taken))
        refine ⟨?_, ?_, fun below => ?_⟩
        · rw [later, blocks, returned]
          tauto
        · rw [if_pos returned, never]
        · have := own returned
          omega
      · refine ⟨?_, ?_, fun below => ?_⟩
        · rw [later, blocks]
          tauto
        · rw [if_neg returned]
          exact once
        · rintro (same | among)
          · exact returned same.symm
          · exact earlier (by omega) among

theorem sound_initial (contents : Buffer → Path) : Sound system (.initial contents) where
  cached _ _ cached := nomatch cached
  fresh i used := absurd used (Finset.notMem_empty i)

/-- A run of calls comes to what the same calls come to with no cache and with the function that
there is for each version; it aborts exactly where there is none. The blocks left allocated are
those returned, and no block is returned twice. -/
theorem realpath_run (calls : List Call) (contents : Buffer → Path) :
    (run system calls (.initial contents) = none ↔
      ∃ call ∈ calls, ¬ (system.exports call.version ∨ system.exports .basic)) ∧
    ∀ results p, run system calls (.initial contents) = some (results, p) →
      (results, { p with rpAdr := fun _ => none }) = plainRun system calls (.initial contents) ∧
      ∀ i, (i ∈ p.live ↔ some (.heap i) ∈ results) ∧ results.count (some (.heap i)) ≤ 1 := by
  have sound : Sound system (.initial contents) := sound_initial contents
  constructor
  · constructor
    · intro stopped
      by_contra all
      push Not at all
      obtain ⟨rpAdr, came⟩ := run_found sound all
      rw [stopped] at came
      cases came
    · rintro ⟨call, among, missing⟩
      exact run_missing sound among missing
  · intro results p came
    have there : ∀ call ∈ calls, Found system call.version := by
      by_contra none
      push Not at none
      obtain ⟨call, among, missing⟩ := none
      rw [run_missing sound among missing] at came
      cases came
    obtain ⟨rpAdr, returned⟩ := run_found sound there
    rw [returned] at came
    cases came
    refine ⟨?_, fun i => ?_⟩
    · have same := plainRun_cache system calls (.initial contents) fun _ => none
      exact same.symm
    · obtain ⟨blocks, once, -⟩ := plainRun_live system calls sound.fresh i
      refine ⟨?_, once⟩
      simpa [Process.initial] using blocks

end LegacySupport.Realpath
