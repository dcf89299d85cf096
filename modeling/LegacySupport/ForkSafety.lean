import LegacySupport.ForkCore
import LegacySupport.KeystreamLedger
import LegacySupport.ReseedBudget

/-!
Generator states copied by a fork. The flag of the process and the remembered pid together
detect a fork unless another thread has cleared the flag and the pid is that of an ancestor that
has exited: then the state is used as it was copied.
-/

namespace LegacySupport.Arc4random

open CInt Runs

/-! ## Histories -/

def unstirredBytes : List Event → List UInt8
  | [] => []
  | .stirred :: _ => []
  | .filled _ :: rest => unstirredBytes rest
  | .handed _ bytes :: rest => bytes ++ unstirredBytes rest

def stirs : List Event → Bool
  | [] => false
  | .stirred :: _ => true
  | .filled _ :: rest => stirs rest
  | .handed _ _ :: rest => stirs rest

theorem stirs_append (first second : List Event) :
    stirs (first ++ second) = (stirs first || stirs second) := by
  induction first with
  | nil => rfl
  | cons event first ih =>
      cases event with
      | stirred => rfl
      | filled block => exact ih
      | handed position bytes => exact ih

theorem unstirredBytes_append (first second : List Event) :
    unstirredBytes (first ++ second) =
      unstirredBytes first ++ if stirs first then [] else unstirredBytes second := by
  induction first with
  | nil => rfl
  | cons event first ih =>
      cases event with
      | stirred => rfl
      | filled block => exact ih
      | handed position bytes =>
          simp only [List.cons_append, unstirredBytes, ih, List.append_assoc]
          rfl

def StirsFirst (more : List Event) : Prop := stirs more = true ∧ unstirredBytes more = []

theorem StirsFirst.append {first : List Event} (stirsFirst : StirsFirst first)
    (second : List Event) : StirsFirst (first ++ second) := by
  obtain ⟨stirred, bytes⟩ := stirsFirst
  constructor
  · rw [stirs_append, stirred, Bool.true_or]
  · rw [unstirredBytes_append, bytes, if_pos stirred, List.append_nil]

theorem unstirredBytes_append_ne_nil {first : List Event} (bytes : unstirredBytes first ≠ [])
    (second : List Event) : unstirredBytes (first ++ second) ≠ [] := by
  rw [unstirredBytes_append]
  exact List.append_ne_nil_of_left_ne_nil bytes _

/-! ## Requests -/

def Request.firstDraw {abi : Abi} : Request abi → Option Nat
  | .stir _ => none
  | .buf n _ _ => if n = 0 then none else some n
  | .u32 _ => some 4
  | .uniform upperBound rnds => if upperBound < 2 ∨ rnds = [] then none else some 4

/-- The request draws nothing, or finds the budget used up and stirs first. -/
def Harmless {abi : Abi} (st : RandState) (request : Request abi) : Prop :=
  ∀ len, request.firstDraw = some len → st.rsCount ≤ len

theorem rsRekey_log (st : RandState) (dat : Option (List UInt8)) :
    ∃ block, (rsRekey st dat).log = st.log ++ [.filled block] := by
  obtain ⟨block, log, -⟩ := rsRekey_spec st dat
  exact ⟨block, log⟩

theorem rsStir_log (st : RandState) (rnd : Entropy) :
    ∃ more, (rsStir st rnd).log = st.log ++ more ∧ StirsFirst more := by
  obtain ⟨block, rekeyed⟩ := rsRekey_log st (some rnd.toList)
  refine ⟨[.filled block, .stirred], ?_, rfl, rfl⟩
  rw [(rsStir_spec st rnd).2.2, rekeyed, List.append_assoc]
  rfl

theorem rsStirIfNeeded_stirred (abi : Abi) (st : RandState) (len : Nat) (rnd : Entropy)
    (needed : st.rsCount ≤ len) :
    ∃ more, (rsStirIfNeeded abi st len rnd).log = st.log ++ more ∧ StirsFirst more := by
  rw [rsStirIfNeeded, if_pos needed]
  exact rsStir_log st rnd

theorem rsStirIfNeeded_kept (abi : Abi) (st : RandState) (len : Nat) (rnd : Entropy)
    (enough : ¬ st.rsCount ≤ len) : (rsStirIfNeeded abi st len rnd).log = st.log := by
  rw [rsStirIfNeeded, if_neg enough]

theorem rsRandomBufLoop_log (st : RandState) (n : Nat) (consistent : Consistent st) :
    ∃ more, (rsRandomBufLoop st n).1.log = st.log ++ more ∧
      (unstirredBytes more).length = n := by
  fun_induction rsRandomBufLoop st n with
  | case1 st => exact ⟨[], (List.append_nil _).symm, rfl⟩
  | case2 st n more some_left m handed rest ih =>
      have available : m ≤ st.rsHave := Nat.min_le_right n st.rsHave
      have wanted : m ≤ n := Nat.min_le_left n st.rsHave
      obtain ⟨later, log, bytes⟩ := ih (consistent.hand some_left available)
      have have_le := consistent.have_le
      have taken : (st.rsBuf.slice (rsbufsz - st.rsHave) m).length = m :=
        length_slice _ (by simp only [rsbufsz, blocksz]; omega)
      refine ⟨.handed (rsbufsz - st.rsHave) (st.rsBuf.slice (rsbufsz - st.rsHave) m) :: later, ?_, ?_⟩
      · rw [log, List.append_cons]
        rfl
      · rw [unstirredBytes, List.length_append, taken, bytes]
        omega
  | case3 st n more empty ih =>
      obtain ⟨later, log, bytes⟩ := ih (consistent.rsRekey none)
      obtain ⟨block, rekeyed⟩ := rsRekey_log st none
      refine ⟨.filled block :: later, ?_, bytes⟩
      rw [log, rekeyed, List.append_assoc]
      rfl

theorem rsRandomBuf_log (abi : Abi) (st : RandState) (n : Nat) (rnd : Entropy)
    (consistent : Consistent st) :
    ∃ more, (rsRandomBuf abi st n rnd).1.log = st.log ++ more ∧
      (unstirredBytes more = [] ↔ n = 0 ∨ st.rsCount ≤ n) := by
  have ready := (consistent.rsStirIfNeeded abi n rnd).consistent
  obtain ⟨later, log, bytes⟩ := rsRandomBufLoop_log (rsStirIfNeeded abi st n rnd) n ready
  unfold rsRandomBuf
  by_cases needed : st.rsCount ≤ n
  · obtain ⟨more, stirredLog, stirsFirst⟩ := rsStirIfNeeded_stirred abi st n rnd needed
    refine ⟨more ++ later, ?_, ?_⟩
    · rw [log, stirredLog, List.append_assoc]
    · exact iff_of_true (stirsFirst.append later).2 (Or.inr needed)
  · refine ⟨later, ?_, ?_⟩
    · rw [log, rsStirIfNeeded_kept abi st n rnd needed]
    · rw [← List.length_eq_zero_iff, bytes]
      omega

theorem rsRandomU32_log (abi : Abi) (st : RandState) (rnd : Entropy)
    (consistent : Consistent st) :
    ∃ more, (rsRandomU32 abi st rnd).1.log = st.log ++ more ∧
      (st.rsCount ≤ 4 → StirsFirst more) ∧ (¬ st.rsCount ≤ 4 → unstirredBytes more ≠ []) := by
  have ready : Consistent (rsStirIfNeeded abi st 4 rnd) :=
    (consistent.rsStirIfNeeded abi 4 rnd).consistent
  obtain ⟨later, log, bytes⟩ : ∃ later,
      (rsRandomU32 abi st rnd).1.log = (rsStirIfNeeded abi st 4 rnd).log ++ later ∧
        unstirredBytes later ≠ [] := by
    have handed : ∀ st' : RandState, st'.rsHave ≤ 984 → 4 ≤ st'.rsHave →
        ∃ position bytes, (st'.hand 4).1.log = st'.log ++ [.handed position bytes] ∧ bytes ≠ [] := by
      intro st' have_le enough
      refine ⟨_, _, rfl, ?_⟩
      have taken : (st'.rsBuf.slice (rsbufsz - st'.rsHave) 4).length = 4 :=
        length_slice _ (by simp only [rsbufsz, blocksz]; omega)
      intro none
      rw [none] at taken
      cases taken
    unfold rsRandomU32
    by_cases short : (rsStirIfNeeded abi st 4 rnd).rsHave < 4
    · obtain ⟨block, rekeyed⟩ := rsRekey_log (rsStirIfNeeded abi st 4 rnd) none
      obtain ⟨position, bytes, log, nonempty⟩ :=
        handed (rsRekey (rsStirIfNeeded abi st 4 rnd) none) (by rw [rsRekey_rsHave])
          (by rw [rsRekey_rsHave]; omega)
      refine ⟨[.filled block, .handed position bytes], ?_, ?_⟩
      · simp only [if_pos short, log, rekeyed, List.append_assoc]
        rfl
      · simp only [unstirredBytes, List.append_nil]
        exact nonempty
    · obtain ⟨position, bytes, log, nonempty⟩ :=
        handed (rsStirIfNeeded abi st 4 rnd) ready.have_le (by omega)
      refine ⟨[.handed position bytes], ?_, ?_⟩
      · simp only [if_neg short, log]
      · simp only [unstirredBytes, List.append_nil]
        exact nonempty
  by_cases needed : st.rsCount ≤ 4
  · obtain ⟨more, stirredLog, stirsFirst⟩ := rsStirIfNeeded_stirred abi st 4 rnd needed
    refine ⟨more ++ later, ?_, fun _ => stirsFirst.append later, fun enough => absurd needed enough⟩
    rw [log, stirredLog, List.append_assoc]
  · refine ⟨later, ?_, fun enough => absurd enough needed, fun _ => bytes⟩
    rw [log, rsStirIfNeeded_kept abi st 4 rnd needed]

theorem uniformLoop_log (host : Host) (minimum : UInt32) : ∀ (rnds : List Entropy) (st : RandState),
    Consistent st → ∃ more, (uniformLoop host minimum st rnds).1.log = st.log ++ more ∧
      (unstirredBytes more = [] ↔ rnds = [] ∨ st.rsCount ≤ 4) := by
  intro rnds
  induction rnds with
  | nil =>
      intro st consistent
      refine ⟨[], (List.append_nil _).symm, ?_⟩
      exact iff_of_true rfl (Or.inl rfl)
  | cons rnd rnds ih =>
      intro st consistent
      obtain ⟨first, log, stirsFirst, handsFirst⟩ := rsRandomU32_log host.abi st rnd consistent
      obtain ⟨rest, restLog, -⟩ := ih _ (consistent.rsRandomU32 host.abi rnd).consistent
      obtain ⟨more, moreLog⟩ : ∃ more,
          (uniformLoop host minimum st (rnd :: rnds)).1.log = st.log ++ (first ++ more) := by
        simp only [uniformLoop]
        split
        next accepted => exact ⟨[], by rw [log, List.append_nil]⟩
        next rejected => exact ⟨rest, by rw [restLog, log, List.append_assoc]⟩
      refine ⟨first ++ more, moreLog, ?_⟩
      by_cases needed : st.rsCount ≤ 4
      · exact iff_of_true ((stirsFirst needed).append more).2 (Or.inr needed)
      · apply iff_of_false (unstirredBytes_append_ne_nil (handsFirst needed) more)
        rintro (empty | needed')
        · cases empty
        · exact needed needed'

theorem serve_log (host : Host) (st : RandState) (request : Request host.abi)
    (consistent : Consistent st) :
    ∃ more, (serve host st request).log = st.log ++ more ∧
      (unstirredBytes more = [] ↔ Harmless st request) := by
  cases request with
  | stir rnd =>
      obtain ⟨more, log, stirsFirst⟩ := rsStir_log st rnd
      exact ⟨more, log, iff_of_true stirsFirst.2 nofun⟩
  | buf n fits rnd =>
      obtain ⟨more, log, bytes⟩ := rsRandomBuf_log host.abi st n rnd consistent
      refine ⟨more, log, bytes.trans ?_⟩
      by_cases zero : n = 0
      · simp [Harmless, Request.firstDraw, zero]
      · simp [Harmless, Request.firstDraw, zero]
  | u32 rnd =>
      obtain ⟨more, log, stirsFirst, handsFirst⟩ := rsRandomU32_log host.abi st rnd consistent
      refine ⟨more, log, ?_⟩
      by_cases needed : st.rsCount ≤ 4
      · exact iff_of_true (stirsFirst needed).2 (by simp [Harmless, Request.firstDraw, needed])
      · exact iff_of_false (handsFirst needed) (by simp [Harmless, Request.firstDraw]; omega)
  | uniform upperBound rnds =>
      by_cases small : upperBound < 2
      · refine ⟨[], ?_, ?_⟩
        · simp only [serve, arc4randomUniform, if_pos small, List.append_nil]
        · exact iff_of_true rfl (by simp [Harmless, Request.firstDraw, small])
      · obtain ⟨more, log, bytes⟩ := uniformLoop_log host (uniformMin upperBound) rnds st consistent
        refine ⟨more, ?_, bytes.trans ?_⟩
        · simp only [serve, arc4randomUniform, if_neg small]
          exact log
        · by_cases empty : rnds = []
          · simp [Harmless, Request.firstDraw, empty]
          · simp [Harmless, Request.firstDraw, empty, small]

/-! ## Thread states -/

def ThreadState.sinceFork (z : ThreadState) : List Event := z.st.log.drop z.inherited

def ThreadState.Unexposed (z : ThreadState) : Prop := unstirredBytes z.sinceFork = []

def ThreadState.Restirred (z : ThreadState) : Prop := stirs z.sinceFork = true

structure ThreadState.Sound (z : ThreadState) : Prop where
  consistent : Consistent z.st
  within : z.inherited ≤ z.st.log.length
  unexposed : z.Unexposed

theorem sinceFork_extend (z : ThreadState) (st : RandState) (more : List Event)
    (within : z.inherited ≤ z.st.log.length) (log : st.log = z.st.log ++ more) (pid : Nat) :
    ThreadState.sinceFork { z with st, rsPid := pid } = z.sinceFork ++ more := by
  simp only [ThreadState.sinceFork, log]
  exact List.drop_append_of_le_length within

theorem ThreadState.Sound.copied {z : ThreadState} (sound : z.Sound) : z.copied.Sound where
  consistent := sound.consistent
  within := Nat.le_refl _
  unexposed := by
    simp only [Unexposed, sinceFork, ThreadState.copied, List.drop_length]
    rfl

theorem ThreadState.Sound.restir {z : ThreadState} (sound : z.Sound) (pid : Nat) (rnd : Entropy) :
    ThreadState.Sound { z with rsPid := pid, st := rsStir z.st rnd } ∧
      ThreadState.Restirred { z with rsPid := pid, st := rsStir z.st rnd } := by
  obtain ⟨more, log, stirred, bytes⟩ := rsStir_log z.st rnd
  have extended := sinceFork_extend z (rsStir z.st rnd) more sound.within log pid
  have unexposed : unstirredBytes z.sinceFork = [] := sound.unexposed
  constructor
  · constructor
    · exact sound.consistent.rsStir rnd
    · have longer : z.inherited ≤ (rsStir z.st rnd).log.length := by
        rw [log, List.length_append]
        exact Nat.le_add_right_of_le sound.within
      exact longer
    · rw [Unexposed, extended, unstirredBytes_append, unexposed, bytes, ite_self]
      rfl
  · rw [Restirred, extended, stirs_append, stirred, Bool.or_true]

theorem newState_sound (pid : Nat) (rnd : Entropy) :
    (newState pid rnd).Sound ∧ (newState pid rnd).Restirred := by
  have zeroSound : ThreadState.Sound ⟨.zero, pid, 0⟩ := ⟨consistent_zero, Nat.le_refl 0, rfl⟩
  exact zeroSound.restir pid rnd

theorem ThreadState.Sound.served {z : ThreadState} (sound : z.Sound) (host : Host)
    (request : Request host.abi) :
    (ThreadState.Unexposed { z with st := serve host z.st request } ↔
        z.Restirred ∨ Harmless z.st request) ∧
      (ThreadState.Unexposed { z with st := serve host z.st request } →
        ThreadState.Sound { z with st := serve host z.st request }) := by
  obtain ⟨more, log, bytes⟩ := serve_log host z.st request sound.consistent
  have extended := sinceFork_extend z (serve host z.st request) more sound.within log z.rsPid
  have unexposed : unstirredBytes z.sinceFork = [] := sound.unexposed
  constructor
  · rw [Unexposed, extended, unstirredBytes_append, unexposed, List.nil_append]
    unfold Restirred
    by_cases stirred : stirs z.sinceFork = true
    · rw [if_pos stirred]
      exact iff_of_true rfl (Or.inl stirred)
    · rw [if_neg stirred, bytes]
      exact ⟨Or.inr, fun either => either.resolve_left stirred⟩
  · intro stillUnexposed
    refine ⟨(sound.consistent.serve host request).consistent, ?_, stillUnexposed⟩
    have longer : z.inherited ≤ (serve host z.st request).log.length := by
      rw [log, List.length_append]
      exact Nat.le_add_right_of_le sound.within
    exact longer

theorem screate_once (process : Process) :
    (if process.once then process else process.screate).rforked = process.rforked ∧
      (if process.once then process else process.screate).threads = process.threads := by
  split
  · exact ⟨rfl, rfl⟩
  · exact ⟨rfl, rfl⟩

theorem ThreadState.Sound.restirred_served {z : ThreadState} (sound : z.Sound) (host : Host)
    (request : Request host.abi) (restirred : z.Restirred) :
    ThreadState.Restirred { z with st := serve host z.st request } := by
  obtain ⟨more, log, -⟩ := serve_log host z.st request sound.consistent
  have extended := sinceFork_extend z (serve host z.st request) more sound.within log z.rsPid
  have stirred : stirs z.sinceFork = true := restirred
  rw [Restirred, extended, stirs_append, stirred, Bool.true_or]

theorem sget_spec (pid : Nat) (process : Process) (thread : Option ThreadState)
    (created rnd : Entropy) (sound : ∀ z, thread = some z → z.Sound) :
    (sget pid process thread created rnd).2.Sound ∧
      ((sget pid process thread created rnd).2.Restirred ∨
        ∃ z, thread = some z ∧ (sget pid process thread created rnd).2 = z ∧
          ¬ process.rforked > 0 ∧ pid = z.rsPid) := by
  obtain ⟨sameFlag, -⟩ := screate_once process
  unfold sget
  generalize (if process.once then process else process.screate) = ready at sameFlag ⊢
  cases thread with
  | none =>
      obtain ⟨newSound, newRestirred⟩ := newState_sound pid created
      simp only
      split
      next detected =>
        obtain ⟨restirSound, restirred⟩ := newSound.restir pid rnd
        exact ⟨restirSound, Or.inl restirred⟩
      next quiet => exact ⟨newSound, Or.inl newRestirred⟩
  | some z =>
      have zSound := sound z rfl
      simp only [sameFlag]
      split
      next detected =>
        obtain ⟨restirSound, restirred⟩ := zSound.restir pid rnd
        exact ⟨restirSound, Or.inl restirred⟩
      next quiet =>
        refine ⟨zSound, Or.inr ⟨z, rfl, rfl, ?_, ?_⟩⟩
        · exact fun raised => quiet (Or.inl raised)
        · by_contra different
          exact quiet (Or.inr different)

def callState (host : Host) (pid : Nat) (process : Process) (thread : Option ThreadState)
    (request : Request host.abi) (created rnd : Entropy) : ThreadState :=
  let z := (sget pid process thread created rnd).2
  { z with st := serve host z.st request }

def Covered {abi : Abi} (pid : Nat) (process : Process) (z : ThreadState) (request : Request abi) :
    Prop :=
  z.Restirred ∨ process.rforked > 0 ∨ pid ≠ z.rsPid ∨ Harmless z.st request

theorem sget_quiet (pid : Nat) (process : Process) (z : ThreadState) (created rnd : Entropy)
    (flag : ¬ process.rforked > 0) (same : pid = z.rsPid) :
    (sget pid process (some z) created rnd).2 = z := by
  obtain ⟨sameFlag, -⟩ := screate_once process
  unfold sget
  simp only [sameFlag]
  rw [if_neg]
  rintro (raised | different)
  · exact flag raised
  · exact different same

theorem callState_unexposed_iff (host : Host) (pid : Nat) (process : Process)
    (thread : Option ThreadState) (request : Request host.abi) (created rnd : Entropy)
    (sound : ∀ z, thread = some z → z.Sound) :
    (callState host pid process thread request created rnd).Unexposed ↔
      ∀ z, thread = some z → Covered pid process z request := by
  obtain ⟨gotSound, got⟩ := sget_spec pid process thread created rnd sound
  obtain ⟨served, -⟩ := gotSound.served host request
  constructor
  · rintro unexposed z rfl
    by_cases flag : process.rforked > 0
    · exact Or.inr (Or.inl flag)
    · by_cases same : pid = z.rsPid
      · have kept := sget_quiet pid process z created rnd flag same
        have either := served.mp unexposed
        rw [kept] at either
        rcases either with restirred | harmless
        · exact Or.inl restirred
        · exact Or.inr (Or.inr (Or.inr harmless))
      · exact Or.inr (Or.inr (Or.inl same))
  · intro covered
    apply served.mpr
    rcases got with restirred | ⟨z, own, kept, flag, same⟩
    · exact Or.inl restirred
    · rw [kept]
      rcases covered z own with restirred | raised | different | harmless
      · exact Or.inl restirred
      · exact absurd raised flag
      · exact absurd same different
      · exact Or.inr harmless

theorem callState_sound (host : Host) (pid : Nat) (process : Process)
    (thread : Option ThreadState) (request : Request host.abi) (created rnd : Entropy)
    (sound : ∀ z, thread = some z → z.Sound)
    (covered : ∀ z, thread = some z → Covered pid process z request) :
    (callState host pid process thread request created rnd).Sound := by
  obtain ⟨gotSound, -⟩ := sget_spec pid process thread created rnd sound
  exact (gotSound.served host request).2
    ((callState_unexposed_iff host pid process thread request created rnd sound).mpr covered)

/-! ## The tree of processes -/

def World.Each (world : World) (property : Nat → ThreadState → Prop) : Prop :=
  ∀ pid process tid z, world pid = some process → process.threads tid = some (some z) →
    property pid z

def NothingInherited (world : World) : Prop := world.Each fun _ z => z.Unexposed

def SoundWorld (world : World) : Prop := world.Each fun _ z => z.Sound

theorem World.set_self (world : World) (pid : Nat) (process : Option Process) :
    world.set pid process pid = process := if_pos rfl

theorem World.Each.set {world : World} {property : Nat → ThreadState → Prop}
    (each : world.Each property) (pid : Nat) (process : Option Process)
    (new : ∀ after, process = some after → ∀ tid z, after.threads tid = some (some z) →
      property pid z) : (world.set pid process).Each property := by
  intro other after tid z found thread
  unfold World.set at found
  split at found
  next same =>
    rw [same]
    exact new after found tid z thread
  next different => exact each other after tid z found thread

theorem sget_threads (pid : Nat) (process : Process) (thread : Option ThreadState)
    (created rnd : Entropy) : (sget pid process thread created rnd).1.threads = process.threads := by
  obtain ⟨-, sameThreads⟩ := screate_once process
  unfold sget
  generalize (if process.once then process else process.screate) = ready at sameThreads ⊢
  cases thread with
  | none =>
      simp only
      split
      · exact sameThreads
      · exact sameThreads
  | some z =>
      simp only
      split
      · exact sameThreads
      · exact sameThreads

theorem call_threads (host : Host) (pid tid : Nat) (process : Process)
    (thread : Option ThreadState) (request : Request host.abi) (created rnd : Entropy)
    (other : Nat) :
    (process.call host pid tid thread request created rnd).threads other =
      if other = tid then some (some (callState host pid process thread request created rnd))
      else process.threads other := by
  rw [← sget_threads pid process thread created rnd]
  rfl

theorem child_threads (process : Process) (tid : Nat) (thread : Option ThreadState) (other : Nat) :
    (process.child tid thread).threads other =
      if other = tid then some (thread.map .copied) else none := by
  unfold Process.child
  simp only
  split
  · rfl
  · rfl

/-- What each action does to the thread states: a fork copies one, a call replaces one, and
nothing else makes any. -/
theorem step_each (property : Nat → ThreadState → Prop) (host : Host) (world : World)
    (action : Action host.abi) (each : world.Each property)
    (forked : ∀ pid tid child process z, action = .fork pid tid child → world pid = some process →
      process.threads tid = some (some z) → property child z.copied)
    (called : ∀ pid tid request created rnd process thread,
      action = .call pid tid request created rnd → world pid = some process →
      process.threads tid = some thread →
      property pid (callState host pid process thread request created rnd)) :
    (step host world action).Each property := by
  cases action with
  | fork pid tid child =>
      simp only [step]
      split
      next _ _ process found free =>
        split
        next thread present =>
          apply each.set
          intro after same other z copied
          cases same
          rw [child_threads] at copied
          split at copied
          next same =>
            cases thread with
            | none => cases copied
            | some z' =>
                cases copied
                exact forked pid tid child process z' rfl found present
          next => cases copied
        next => exact each
      next => exact each
  | exit pid =>
      apply each.set
      intro after same
      cases same
  | createThread pid tid =>
      simp only [step]
      split
      next process found =>
        split
        next absent =>
          apply each.set
          intro after same other z thread
          cases same
          simp only [Process.setThread] at thread
          split at thread
          next => cases thread
          next => exact each pid process other z found thread
        next => exact each
      next => exact each
  | call pid tid request created rnd =>
      simp only [step]
      split
      next process found =>
        split
        next thread present =>
          apply each.set
          intro after same other z state
          cases same
          rw [call_threads] at state
          split at state
          next =>
            cases state
            exact called pid tid request created rnd process thread rfl found present
          next => exact each pid process other z found state
        next => exact each
      next => exact each

/-- The condition on a step: a call whose thread has a state is told of a fork that copied it,
or needs no telling. -/
def Guarded (host : Host) (world : World) (action : Action host.abi) : Prop :=
  match action with
  | .call pid tid request _ _ =>
      ∀ process z, world pid = some process → process.threads tid = some (some z) →
        Covered pid process z request
  | _ => True

theorem soundWorld_step (host : Host) (world : World) (action : Action host.abi)
    (sound : SoundWorld world) (guarded : Guarded host world action) :
    SoundWorld (step host world action) := by
  apply step_each _ host world action sound
  · intro pid tid child process z _ found present
    exact (sound pid process tid z found present).copied
  · rintro pid tid request created rnd process thread rfl found present
    apply callState_sound
    · rintro z rfl
      exact sound pid process tid z found present
    · rintro z rfl
      exact guarded process z found present

theorem nothingInherited_iff (host : Host) (world : World) (action : Action host.abi)
    (sound : SoundWorld world) :
    NothingInherited (step host world action) ↔ Guarded host world action := by
  constructor
  · intro nothing
    cases action with
    | fork pid tid child => exact True.intro
    | exit pid => exact True.intro
    | createThread pid tid => exact True.intro
    | call pid tid request created rnd =>
        intro process z found present
        have zSound := sound pid process tid z found present
        refine (callState_unexposed_iff host pid process (some z) request created rnd ?_).mp ?_ z rfl
        · intro z' same
          cases same
          exact zSound
        · apply nothing pid (process.call host pid tid (some z) request created rnd) tid
          · simp only [step, found, present]
            exact World.set_self world pid _
          · rw [call_threads, if_pos rfl]
  · intro guarded pid process tid z found present
    exact (soundWorld_step host world action sound guarded pid process tid z found present).unexposed

theorem root_each (property : Nat → ThreadState → Prop) (pid tid : Nat) :
    (World.root pid tid).Each property := by
  intro other process thread z found present
  unfold World.root World.set at found
  split at found
  next =>
    cases found
    simp only at present
    split at present
    next => cases present
    next => cases present
  next => cases found

/-- In every run of a tree of processes nothing is handed out from an inherited state exactly
when every call on a state that has not been restirred is told of the fork or is harmless. -/
theorem forkTree_safe_iff (host : Host) (pid tid : Nat) (actions : List (Action host.abi)) :
    Throughout (step host) (fun world action => NothingInherited (step host world action))
        (World.root pid tid) actions ↔
      Throughout (step host) (Guarded host) (World.root pid tid) actions :=
  throughout_iff (soundWorld_step host) (nothingInherited_iff host) (root_each _ pid tid) actions

def noEntropy : Entropy := Vector.replicate 40 0

def sixteenBytes : Request littleEndianHost.abi := .buf 16 (by decide) noEntropy

/-- The root makes a state and forks a child that never calls; when the root has exited, that
child forks a grandchild that is given the root's pid. There a new thread clears the flag. -/
def reusedPid : List (Action littleEndianHost.abi) :=
  [.call 1 1 sixteenBytes noEntropy noEntropy, .fork 1 1 2, .exit 1, .fork 2 1 1,
    .createThread 1 2, .call 1 2 sixteenBytes noEntropy noEntropy,
    .call 1 1 sixteenBytes noEntropy noEntropy]

theorem sixteenBytes_count (st : RandState) (full : st.rsCount = 1600000) :
    (serve littleEndianHost st sixteenBytes).rsCount = 1599984 := by
  have loop := rsRandomBufLoop_budget (rsStirIfNeeded .lp64 st 16 noEntropy) 16
  have count := rsStirIfNeeded_rsCount .lp64 st 16 noEntropy
  change (rsRandomBufLoop (rsStirIfNeeded .lp64 st 16 noEntropy) 16).1.rsCount = _
  rw [loop.1, count, full]
  rfl

theorem forkTree_reusedPid_unsafe :
    ¬ ∀ (host : Host) (pid tid : Nat) (actions : List (Action host.abi)),
      Throughout (step host) (fun world action => NothingInherited (step host world action))
        (World.root pid tid) actions := by
  intro always
  have guarded := (throughout_iff (soundWorld_step littleEndianHost)
    (nothingInherited_iff littleEndianHost) (root_each _ 1 1) reusedPid).mp
      (always littleEndianHost 1 1 reusedPid)
  obtain ⟨-, -, -, -, -, -, last, -⟩ := guarded
  have covered := last _ (ThreadState.copied (ThreadState.copied
    ⟨serve littleEndianHost (rsStir .zero noEntropy) sixteenBytes, 1, 0⟩)) rfl rfl
  rcases covered with restirred | raised | different | harmless
  · simp only [ThreadState.Restirred, ThreadState.sinceFork, ThreadState.copied,
      List.drop_length] at restirred
    cases restirred
  · exact absurd raised (by decide)
  · exact different rfl
  · have count := harmless 16 rfl
    simp only [ThreadState.copied] at count
    rw [sixteenBytes_count (rsStir .zero noEntropy) rfl] at count
    omega

/-! ## Runs without a reused ancestor pid -/

def FreshPid (host : Host) (world : World) (action : Action host.abi) : Prop :=
  match action with
  | .fork pid tid child =>
      ∀ process z, world pid = some process → process.threads tid = some (some z) →
        child ≠ z.rsPid
  | _ => True

def ToldByPid (pid : Nat) (z : ThreadState) : Prop := z.Restirred ∨ pid ≠ z.rsPid

theorem toldByPid_step (host : Host) (world : World) (action : Action host.abi)
    (kept : SoundWorld world ∧ world.Each ToldByPid) (fresh : FreshPid host world action) :
    SoundWorld (step host world action) ∧ (step host world action).Each ToldByPid := by
  obtain ⟨sound, told⟩ := kept
  have guarded : Guarded host world action := by
    cases action with
    | call pid tid request created rnd =>
        intro process z found present
        rcases told pid process tid z found present with restirred | different
        · exact Or.inl restirred
        · exact Or.inr (Or.inr (Or.inl different))
    | fork pid tid child => exact True.intro
    | exit pid => exact True.intro
    | createThread pid tid => exact True.intro
  refine ⟨soundWorld_step host world action sound guarded, ?_⟩
  apply step_each _ host world action told
  · rintro pid tid child process z rfl found present
    exact Or.inr (fresh process z found present)
  · rintro pid tid request created rnd process thread rfl found present
    obtain ⟨gotSound, got⟩ := sget_spec pid process thread created rnd (by
      rintro z rfl
      exact sound pid process tid z found present)
    apply Or.inl
    apply gotSound.restirred_served host request
    rcases got with restirred | ⟨z, rfl, kept', -, same⟩
    · exact restirred
    · rw [kept']
      exact (told pid process tid z found present).resolve_right (fun different => different same)

/-- Where no fork reuses the pid that the copied state remembers, the two detectors suffice. -/
theorem forkTree_safe_of_freshPids (host : Host) (pid tid : Nat) (actions : List (Action host.abi))
    (fresh : Throughout (step host) (FreshPid host) (World.root pid tid) actions) :
    Throughout (step host) (fun world action => NothingInherited (step host world action))
      (World.root pid tid) actions := by
  apply Throughout.imp (toldByPid_step host) _ ⟨root_each _ pid tid, root_each _ pid tid⟩ fresh
  intro world action kept freshStep
  have sound := (toldByPid_step host world action kept freshStep).1
  intro other process thread z found present
  exact (sound other process thread z found present).unexposed

end LegacySupport.Arc4random
