import LegacySupport.CopyDataCore

/-!
How `copyfile_open` of `copyfile.c` opens the destination of a regular file: it tries to create it,
and takes back one demand after the other as the system refuses them.
-/

namespace LegacySupport.Copyfile

def eexist : Errno := 17
def eacces : Errno := 13
def eisdir : Errno := 21
def enoent : Errno := 2
def oRdonly : UInt32 := 0
def oWronly : UInt32 := 1
def oAccmode : UInt32 := 3
def oNofollow : UInt32 := 0x100
def oCreat : UInt32 := 0x200
def oTrunc : UInt32 := 0x400
def oExcl : UInt32 := 0x800
def oSymlink : UInt32 := 0x200000

structure OpenSystem (State Handle : Type) where
  open' : State → UInt32 → Except Errno Handle × State
  chmod : State → Except Errno Unit × State

structure OpenRequest where
  excl : Bool
  pack : Bool
  data : Bool
  unpack : Bool
  isdir : Bool
  dsrc : UInt32

structure OpenEnd (State Handle : Type) where
  result : Except Errno Handle
  state : State
  attempts : List UInt32

def OpenEnd.after {State Handle : Type} (attempt : UInt32) (ends : OpenEnd State Handle) :
    OpenEnd State Handle :=
  { ends with attempts := attempt :: ends.attempts }

variable {State Handle : Type} (system : OpenSystem State Handle) (request : OpenRequest)

def openLoop : Nat → UInt32 → State → Option (OpenEnd State Handle)
  | 0, _, _ => none
  | fuel + 1, oflags, state =>
      let attempt := oflags ||| request.dsrc
      match system.open' state attempt with
      | (.ok fd, state) => some ⟨.ok fd, state, [attempt]⟩
      | (.error error, state) =>
          if error = eexist then
            if request.excl then some ⟨.error error, state, [attempt]⟩
            else
              let oflags := oflags &&& ~~~oCreat
              let oflags := if request.pack || request.data then oflags ||| oTrunc else oflags
              (openLoop fuel oflags state).map (·.after attempt)
          else if error = eacces then
            match system.chmod state with
            | (.ok _, state) => (openLoop fuel oflags state).map (·.after attempt)
            | (.error error, state) =>
                some ⟨.error (if error = enoent then eacces else error), state, [attempt]⟩
          else if error = eisdir then
            if (request.excl || (!request.isdir && request.data)) && !request.unpack then
              some ⟨.error error, state, [attempt]⟩
            else
              let oflags := (oflags &&& ~~~(oWronly ||| oCreat ||| oTrunc)) ||| oRdonly
              (openLoop fuel oflags state).map (·.after attempt)
          else some ⟨.error error, state, [attempt]⟩

def initialOflags : UInt32 := oExcl ||| oCreat ||| oWronly

def openDestination (fuel : Nat) (state : State) : Option (OpenEnd State Handle) :=
  openLoop system request fuel initialOflags state

/-! ## What is tried -/

/-- The flags that the loop can come to: those it starts with, those for a file that exists, and
those for a directory. -/
inductive Demand
  | create
  | existing
  | directory
  deriving DecidableEq

def Demand.oflags (truncates : Bool) : Demand → UInt32
  | .create => initialOflags
  | .existing => if truncates then oExcl ||| oWronly ||| oTrunc else oExcl ||| oWronly
  | .directory => oExcl ||| oRdonly

def Demand.rank : Demand → Nat
  | .create => 0
  | .existing => 1
  | .directory => 2

/-- `open` gives `EEXIST` only where the file was to be created, and `EISDIR` only where it was to
be written. -/
structure Refuses (system : OpenSystem State Handle) : Prop where
  eexist : ∀ state flags, (system.open' state flags).1 = .error Copyfile.eexist →
    flags &&& oCreat ≠ 0
  eisdir : ∀ state flags, (system.open' state flags).1 = .error Copyfile.eisdir →
    flags &&& oAccmode ≠ oRdonly

def Demand.Allowed (request : OpenRequest) : Demand → Prop
  | .create => True
  | .existing => request.excl = false
  | .directory => request.unpack = true ∨
      (request.excl = false ∧ (request.isdir = true ∨ request.data = false))

def OpenRequest.Plain (request : OpenRequest) : Prop :=
  request.dsrc = 0 ∨ request.dsrc = oNofollow ∨ request.dsrc = oSymlink

def OpenRequest.truncates (request : OpenRequest) : Bool := request.pack || request.data

def Demand.attempt (request : OpenRequest) (demand : Demand) : UInt32 :=
  demand.oflags request.truncates ||| request.dsrc

/-- The attempts make these demands, of which none comes back once it has been given up. -/
structure Attempts (request : OpenRequest) (demand : Demand) (attempts : List UInt32)
    (demands : List Demand) : Prop where
  made : attempts = demands.map (·.attempt request)
  descending : demands.Pairwise fun demand later => demand.rank ≤ later.rank
  first : demands.head? = some demand
  lowest : ∀ later ∈ demands, demand.rank ≤ later.rank
  allowed : ∀ later ∈ demands, later.Allowed request

variable {request}

theorem Attempts.single {demand : Demand} (allowed : demand.Allowed request) :
    Attempts request demand [demand.attempt request] [demand] where
  made := rfl
  descending := List.pairwise_singleton _ _
  first := rfl
  lowest other member := by
    cases List.mem_singleton.mp member
    exact Nat.le_refl _
  allowed other member := by
    cases List.mem_singleton.mp member
    exact allowed

theorem Attempts.cons {demand next : Demand} {attempts : List UInt32} {demands : List Demand}
    (allowed : demand.Allowed request) (later : demand.rank ≤ next.rank)
    (rest : Attempts request next attempts demands) :
    Attempts request demand (demand.attempt request :: attempts) (demand :: demands) where
  made := by rw [rest.made, List.map_cons]
  descending := List.pairwise_cons.mpr
    ⟨fun other member => later.trans (rest.lowest other member), rest.descending⟩
  first := rfl
  lowest other member := by
    rcases List.mem_cons.mp member with rfl | member
    · exact Nat.le_refl _
    · exact later.trans (rest.lowest other member)
  allowed other member := by
    rcases List.mem_cons.mp member with rfl | member
    · exact allowed
    · exact rest.allowed other member

theorem existing_oflags (truncates : Bool) :
    (if truncates then (initialOflags &&& ~~~oCreat) ||| oTrunc
      else initialOflags &&& ~~~oCreat) = Demand.existing.oflags truncates := by
  cases truncates <;> decide

theorem directory_oflags (truncates : Bool) (demand : Demand) :
    (demand.oflags truncates &&& ~~~(oWronly ||| oCreat ||| oTrunc)) ||| oRdonly =
      Demand.directory.oflags truncates := by
  cases demand <;> cases truncates <;> decide

theorem attempt_creates (plain : request.Plain) {demand : Demand}
    (creates : demand.attempt request &&& oCreat ≠ 0) : demand = .create := by
  unfold Demand.attempt at creates
  revert creates
  generalize request.truncates = truncates
  rcases plain with same | same | same <;> rw [same] <;> cases demand <;> cases truncates <;> decide

theorem attempt_writes (plain : request.Plain) {demand : Demand}
    (writes : demand.attempt request &&& oAccmode ≠ oRdonly) : demand ≠ .directory := by
  unfold Demand.attempt at writes
  revert writes
  generalize request.truncates = truncates
  rcases plain with same | same | same <;> rw [same] <;> cases demand <;> cases truncates <;> decide

theorem attempt_truncates (plain : request.Plain) {demand : Demand}
    (truncated : demand.attempt request &&& oTrunc ≠ 0) :
    demand = .existing ∧ request.truncates = true := by
  unfold Demand.attempt at truncated
  revert truncated
  generalize request.truncates = truncates
  rcases plain with same | same | same <;> rw [same] <;> cases demand <;> cases truncates <;> decide

variable {system}

theorem openLoop_keeps {safe : State → Prop}
    (opens : ∀ state flags, safe state → safe (system.open' state flags).2)
    (chmods : ∀ state, safe state → safe (system.chmod state).2) (fuel : Nat) :
    ∀ oflags state ends, safe state → openLoop system request fuel oflags state = some ends →
      safe ends.state := by
  induction fuel with
  | zero =>
      intro oflags state ends kept ran
      cases ran
  | succ fuel ih =>
      intro oflags state ends kept ran
      have later : ∀ {attempt oflags state}, safe state →
          (openLoop system request fuel oflags state).map (·.after attempt) = some ends →
            safe ends.state := by
        intro attempt oflags state kept went
        obtain ⟨rest, looped, whole⟩ := Option.map_eq_some_iff.mp went
        rw [← whole]
        exact ih _ _ rest kept looped
      have opened := opens state (oflags ||| request.dsrc) kept
      rw [openLoop] at ran
      dsimp only at ran
      split at ran
      next fd after answered =>
        cases ran
        rw [answered] at opened
        exact opened
      next error after answered =>
        rw [answered] at opened
        have changed := chmods after opened
        split at ran
        next =>
          split at ran
          next =>
            cases ran
            exact opened
          next => exact later opened ran
        next =>
          split at ran
          next =>
            split at ran
            next allowed => exact later (by rwa [allowed] at changed) ran
            next refused =>
              cases ran
              rwa [refused] at changed
          next =>
            split at ran
            next =>
              split at ran
              next =>
                cases ran
                exact opened
              next => exact later opened ran
            next =>
              cases ran
              exact opened

theorem openLoop_attempts (refuses : Refuses system) (plain : request.Plain) (fuel : Nat) :
    ∀ (demand : Demand) state ends, demand.Allowed request →
      openLoop system request fuel (demand.oflags request.truncates) state = some ends →
        ∃ demands, Attempts request demand ends.attempts demands := by
  induction fuel with
  | zero =>
      intro demand state ends allowed ran
      cases ran
  | succ fuel ih =>
      intro demand state ends allowed ran
      -- the loop goes on with this demand or a later one
      have goes : ∀ (next : Demand) oflags state', oflags = next.oflags request.truncates →
          next.Allowed request → demand.rank ≤ next.rank →
          (openLoop system request fuel oflags state').map (·.after (demand.attempt request)) =
            some ends → ∃ demands, Attempts request demand ends.attempts demands := by
        intro next oflags state' same nextAllowed later went
        obtain ⟨rest, looped, whole⟩ := Option.map_eq_some_iff.mp went
        rw [same] at looped
        obtain ⟨demands, attempts⟩ := ih next state' rest nextAllowed looped
        rw [← whole]
        exact ⟨demand :: demands, attempts.cons allowed later⟩
      rw [openLoop] at ran
      dsimp only at ran
      split at ran
      next fd state' opened =>
        cases ran
        exact ⟨[demand], .single allowed⟩
      next error state' refused =>
        have answered : (system.open' state (demand.attempt request)).1 = .error error := by
          rw [Demand.attempt, refused]
        split at ran
        next exists' =>
          rw [exists'] at answered
          cases attempt_creates plain (refuses.eexist state _ answered)
          split at ran
          next =>
            cases ran
            exact ⟨[.create], .single allowed⟩
          next unexclusive =>
            exact goes .existing _ state' (existing_oflags _)
              (Bool.eq_false_of_not_eq_true unexclusive)
              (by decide) ran
        next =>
          split at ran
          next denied =>
            split at ran
            next => exact goes demand _ _ rfl allowed (Nat.le_refl _) ran
            next =>
              cases ran
              exact ⟨[demand], .single allowed⟩
          next =>
            split at ran
            next isDirectory =>
              rw [isDirectory] at answered
              have written := attempt_writes plain (refuses.eisdir state _ answered)
              split at ran
              next =>
                cases ran
                exact ⟨[demand], .single allowed⟩
              next permitted =>
                refine goes .directory _ state' (directory_oflags _ demand) ?_ ?_ ran
                · unfold Demand.Allowed
                  revert permitted
                  cases request.unpack <;> cases request.excl <;> cases request.isdir <;>
                    cases request.data <;> decide
                · cases demand <;> decide
            next =>
              cases ran
              exact ⟨[demand], .single allowed⟩

/-- Whatever the system answers, the demands are taken back one after the other, and a file that
exists is not opened, nor truncated, unless that has been allowed. -/
theorem openDestination_attempts (refuses : Refuses system) (plain : request.Plain) {fuel : Nat}
    {state : State} {ends : OpenEnd State Handle}
    (ran : openDestination system request fuel state = some ends) :
    ∃ demands, Attempts request .create ends.attempts demands ∧
      (request.excl = true → request.unpack = false →
        ∀ attempt ∈ ends.attempts, attempt = initialOflags ||| request.dsrc) ∧
      ((∃ attempt ∈ ends.attempts, attempt &&& oTrunc ≠ 0) →
        request.excl = false ∧ (request.pack = true ∨ request.data = true)) := by
  obtain ⟨demands, attempts⟩ :=
    openLoop_attempts refuses plain fuel .create state ends True.intro ran
  refine ⟨demands, attempts, ?_, ?_⟩
  · intro exclusive packed attempt member
    rw [attempts.made] at member
    obtain ⟨demand, asked, same⟩ := List.mem_map.mp member
    have allowed := attempts.allowed demand asked
    cases demand with
    | create => exact same.symm
    | existing =>
        rw [Demand.Allowed, exclusive] at allowed
        cases allowed
    | directory =>
        rw [Demand.Allowed, exclusive, packed] at allowed
        rcases allowed with impossible | ⟨impossible, -⟩ <;> cases impossible
  · rintro ⟨attempt, member, truncated⟩
    rw [attempts.made] at member
    obtain ⟨demand, asked, same⟩ := List.mem_map.mp member
    rw [← same] at truncated
    obtain ⟨rfl, truncates⟩ := attempt_truncates plain truncated
    exact ⟨attempts.allowed .existing asked, (Bool.or_eq_true _ _).mp truncates⟩

def writableFile : OpenSystem Unit Nat where
  open' _ flags := (if flags &&& oCreat = 0 then .ok 0 else .error Copyfile.eexist, ())
  chmod _ := (.ok (), ())

def dataRequest : OpenRequest := ⟨false, false, true, false, false, 0⟩

theorem openDestination_attempts_writableFile :
    ∃ demands, Attempts dataRequest .create
        [initialOflags, Demand.existing.oflags true] demands := by
  have refuses : Refuses writableFile := by
    constructor
    · intro _ flags refused creates
      simp only [writableFile, creates, if_true, reduceCtorEq] at refused
    · intro _ flags refused
      simp only [writableFile] at refused
      split at refused
      · cases refused
      · exact absurd (Except.error.inj refused) (by decide)
  obtain ⟨demands, attempts, -⟩ := @openDestination_attempts Unit Nat writableFile dataRequest
    refuses (Or.inl rfl) 2 () ⟨.ok 0, (), [initialOflags, Demand.existing.oflags true]⟩ rfl
  exact ⟨demands, attempts⟩

end LegacySupport.Copyfile
