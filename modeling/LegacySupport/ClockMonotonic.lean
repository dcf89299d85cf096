import LegacySupport.ClockAgreement
import LegacySupport.ClockResolution

/-!
Clock monotonicity: a sequence of calls of the two interfaces on one mach-based clock never
goes back, as long as the tick count and the seconds are representable.
-/

namespace LegacySupport.Time

open CInt

inductive Api
  | gettime
  | gettimeNsecNp
  deriving DecidableEq, Repr

structure Call where
  api : Api
  readings : Readings

inductive Stamp
  | nanos (value : UInt64)
  | timespec (ts : Timespec)
  deriving DecidableEq, Repr

def Stamp.spec : Stamp → Timespec
  | .nanos value => ⟨(value.toNat / 1000000000 : Nat), (value.toNat % 1000000000 : Nat)⟩
  | .timespec ts => ts

def Stamp.NotAfter (first second : Stamp) : Prop :=
  first.spec.sec < second.spec.sec ∨
    (first.spec.sec = second.spec.sec ∧ first.spec.nsec ≤ second.spec.nsec)

instance (first second : Stamp) : Decidable (first.NotAfter second) :=
  inferInstanceAs (Decidable (_ ∨ _))

def takeStamp (build : Build) (clk : ClockId) (mach : MachStatics) (call : Call) : Option Stamp :=
  match call.api with
  | .gettimeNsecNp => some (.nanos (clockGettimeNsecNp build call.readings mach clk).value)
  | .gettime =>
      let (ret, ts) := (clockGettime build call.readings mach clk).value
      if ret = 0 then ts.map .timespec else none

def stamps (build : Build) (clk : ClockId) : MachStatics → List Call → List (Option Stamp)
  | _, [] => []
  | mach, call :: rest =>
      takeStamp build clk mach call :: stamps build clk (earlySetup build call.readings mach).2 rest

def ClockId.ticks (readings : Readings) : ClockId → Nat
  | .monotonic | .monotonicRaw =>
      readings.machAbsoluteTime.toNat + readings.sleep.sleepOffset.toNat
  | _ => readings.machAbsoluteTime.toNat

def ClockId.isSteady : ClockId → Bool
  | .monotonic | .monotonicRaw | .uptimeRaw => true
  | _ => false

def scaledTicks (mult : UInt64) (ticks : Nat) : Nat := ticks * mult.toNat / 2 ^ 34

def ClockId.nanos (mult : UInt64) (readings : Readings) (clk : ClockId) : Nat :=
  match clk with
  | .monotonic => scaledTicks mult (clk.ticks readings) / 1000 * 1000
  | _ => scaledTicks mult (clk.ticks readings)

structure InRange (abi : Abi) (mult : UInt64) (clk : ClockId) (readings : Readings) : Prop where
  ticks : clk.ticks readings < 2 ^ 64
  scaled : scaledTicks mult (clk.ticks readings) < 2 ^ 62
  seconds : abi.IsLong (scaledTicks mult (clk.ticks readings) / 1000000000 : Nat)

structure SteadyCalls (timebase : UInt32 × UInt32) (offset : UInt64) (calls : List Call) : Prop where
  timebase : ∀ call ∈ calls, call.readings.timebase = some timebase
  offset : ∀ call ∈ calls, call.readings.sleep.sleepOffset = offset
  ordered : calls.Pairwise fun first second =>
    first.readings.machAbsoluteTime ≤ second.readings.machAbsoluteTime

def NeverDecrease (build : Build) (clk : ClockId) (mach : MachStatics) (calls : List Call) : Prop :=
  ∃ values : List Stamp, stamps build clk mach calls = values.map some ∧ values.Pairwise Stamp.NotAfter

structure Stamp.Shows (stamp : Stamp) (nanos : Nat) : Prop where
  normal : stamp.spec.Normal
  total : stamp.spec.total = nanos

theorem Stamp.Shows.notAfter {first second : Stamp} {nanos later : Nat}
    (firstShows : first.Shows nanos) (secondShows : second.Shows later) (ordered : nanos ≤ later) :
    first.NotAfter second := by
  obtain ⟨⟨firstLower, firstUpper⟩, firstTotal⟩ := firstShows
  obtain ⟨⟨secondLower, secondUpper⟩, secondTotal⟩ := secondShows
  unfold Timespec.total at firstTotal secondTotal
  unfold Stamp.NotAfter
  omega

theorem nanos_shows (value : UInt64) : (Stamp.nanos value).Shows value.toNat := by
  constructor
  · simp only [Timespec.Normal, Stamp.spec]
    omega
  · simp only [Timespec.total, Stamp.spec]
    omega

theorem timespec_shows {abi : Abi} {value : UInt64} (fits : ScaledFits abi value) :
    (Stamp.timespec (nanos2timespec abi value)).Shows value.toNat :=
  ⟨(nanos2timespec_agrees fits).normal, nanos2timespec_total fits⟩

theorem earlySetup_cached (build : Build) (readings : Readings) (mach : MachStatics)
    (numer denom : UInt32) (nonzero : numer ≠ 0) (cached : MachCached build.abi numer denom mach)
    (timebase : readings.timebase = some (numer, denom)) :
    earlySetup build readings mach =
      (0, (setupMachMult build.abi (some (numer, denom)) .initial).2) := by
  unfold earlySetup
  split
  next unset => rw [timebase, setupMachMult_cached build.abi numer denom mach nonzero cached]
  next set =>
    rcases cached.mult with ⟨unset, -⟩ | full
    · exact absurd unset set
    · rw [← full]

theorem setup_cached (abi : Abi) (numer denom : UInt32) (nonzero : numer ≠ 0) :
    MachCached abi numer denom (setupMachMult abi (some (numer, denom)) .initial).2 :=
  machReached_cached abi numer denom nonzero _ (.mult .initial)

theorem toNat_machContinuousTime (readings : Readings)
    (fits : readings.machAbsoluteTime.toNat + readings.sleep.sleepOffset.toNat < 2 ^ 64) :
    (machContinuousTime readings.sleep readings.machAbsoluteTime).toNat =
      readings.machAbsoluteTime.toNat + readings.sleep.sleepOffset.toNat := by
  rw [machContinuousTime, UInt64.toNat_add, Nat.mod_eq_of_lt fits]

theorem mach2nanos_scaled (mach : MachStatics) (machTime : UInt64)
    (scaled : scaledTicks mach.mult machTime.toNat < 2 ^ 62) :
    (mach2nanos mach machTime).toNat = scaledTicks mach.mult machTime.toNat := by
  apply toNat_mach2nanos
  unfold scaledTicks at scaled
  omega

theorem scaledFits_of_eq {abi : Abi} {value : UInt64} {nanos : Nat} (same : value.toNat = nanos)
    (seconds : abi.IsLong (nanos / 1000000000 : Nat)) : ScaledFits abi value := by
  rw [ScaledFits, same]
  exact seconds

section Step

variable {build : Build} {numer denom : UInt32} {mach : MachStatics} {clk : ClockId} {call : Call}

theorem takeStamp_of_value {value : UInt64} {nanos : Nat} (same : value.toNat = nanos)
    (fits : ScaledFits build.abi value)
    (gettime : (clockGettime build call.readings mach clk).value =
      (0, some (nanos2timespec build.abi value)))
    (gettimeNsecNp : (clockGettimeNsecNp build call.readings mach clk).value = value) :
    ∃ stamp, takeStamp build clk mach call = some stamp ∧ stamp.Shows nanos := by
  rw [← same]
  unfold takeStamp
  cases call.api with
  | gettime =>
      refine ⟨_, ?_, timespec_shows fits⟩
      simp only [gettime, if_true, Option.map_some]
  | gettimeNsecNp =>
      refine ⟨_, ?_, nanos_shows value⟩
      simp only [gettimeNsecNp]

theorem takeStamp_shows (nonzero : numer ≠ 0) (cached : MachCached build.abi numer denom mach)
    (steady : clk.isSteady) (timebase : call.readings.timebase = some (numer, denom))
    (inRange : InRange build.abi (machMultOf numer denom) clk call.readings) :
    ∃ stamp, takeStamp build clk mach call = some stamp ∧
      stamp.Shows (clk.nanos (machMultOf numer denom) call.readings) := by
  have setup := earlySetup_cached build call.readings mach numer denom nonzero cached timebase
  obtain ⟨ticks, scaled, seconds⟩ := inRange
  have value : ∀ machTime : UInt64, machTime.toNat = clk.ticks call.readings →
      (mach2nanos (setupMachMult build.abi (some (numer, denom)) .initial).2 machTime).toNat =
        scaledTicks (machMultOf numer denom) (clk.ticks call.readings) := by
    intro machTime exact
    rw [← exact] at scaled ⊢
    exact mach2nanos_scaled (setupMachMult build.abi (some (numer, denom)) .initial).2 machTime scaled
  cases clk with
  | monotonic =>
      have scaledValue := value _ (toNat_machContinuousTime call.readings ticks)
      apply takeStamp_of_value _ (scaledFits_quantised (scaledFits_of_eq scaledValue seconds))
      · simp only [clockGettime, setup]
      · simp only [clockGettimeNsecNp, setup]
      · rw [toNat_quantised, scaledValue, ClockId.nanos]
  | monotonicRaw =>
      have scaledValue := value _ (toNat_machContinuousTime call.readings ticks)
      apply takeStamp_of_value _ (scaledFits_of_eq scaledValue seconds)
      · simp only [clockGettime, setup, mach2timespec]
      · simp only [clockGettimeNsecNp, setup]
      · rw [scaledValue, ClockId.nanos]
        intro monotonic
        cases monotonic
  | uptimeRaw =>
      have scaledValue := value call.readings.machAbsoluteTime rfl
      apply takeStamp_of_value _ (scaledFits_of_eq scaledValue seconds)
      · simp only [clockGettime, setup, mach2timespec]
      · simp only [clockGettimeNsecNp, setup]
      · rw [scaledValue, ClockId.nanos]
        intro monotonic
        cases monotonic
  | realtime | monotonicRawApprox | uptimeRawApprox | processCputimeId | threadCputimeId
  | unsupported => cases steady

end Step

theorem scaledTicks_mono (mult : UInt64) (ticks later : Nat) (ordered : ticks ≤ later) :
    scaledTicks mult ticks ≤ scaledTicks mult later :=
  Nat.div_le_div_right (Nat.mul_le_mul_right _ ordered)

theorem clockNanos_mono (mult : UInt64) (clk : ClockId) (first second : Readings)
    (offset : first.sleep.sleepOffset = second.sleep.sleepOffset)
    (ordered : first.machAbsoluteTime ≤ second.machAbsoluteTime) :
    clk.nanos mult first ≤ clk.nanos mult second := by
  have readings := UInt64.le_iff_toNat_le.mp ordered
  have ticks : clk.ticks first ≤ clk.ticks second := by
    unfold ClockId.ticks
    rw [offset]
    split
    next => omega
    next => omega
    next => exact readings
  have scaled := scaledTicks_mono mult _ _ ticks
  unfold ClockId.nanos
  split
  next => exact Nat.mul_le_mul_right _ (Nat.div_le_div_right scaled)
  next => exact scaled

theorem SteadyCalls.tail {timebase : UInt32 × UInt32} {offset : UInt64} {call : Call}
    {rest : List Call} (steadyCalls : SteadyCalls timebase offset (call :: rest)) :
    SteadyCalls timebase offset rest where
  timebase := (List.forall_mem_cons.mp steadyCalls.timebase).2
  offset := (List.forall_mem_cons.mp steadyCalls.offset).2
  ordered := (List.pairwise_cons.mp steadyCalls.ordered).2

/-- Every value of a run shows the reading of one of its calls, and the statics stay cached from
call to call, so a value is compared with all the later ones at once. -/
theorem stamps_ordered (build : Build) (numer denom : UInt32) (offset : UInt64) (clk : ClockId)
    (nonzero : numer ≠ 0) (steady : clk.isSteady) : ∀ (calls : List Call) (mach : MachStatics),
    MachCached build.abi numer denom mach → SteadyCalls (numer, denom) offset calls →
    (∀ call ∈ calls, InRange build.abi (machMultOf numer denom) clk call.readings) →
    ∃ values : List Stamp, stamps build clk mach calls = values.map some ∧
      (∀ value ∈ values, ∃ call ∈ calls,
        value.Shows (clk.nanos (machMultOf numer denom) call.readings)) ∧
      values.Pairwise Stamp.NotAfter := by
  intro calls
  induction calls with
  | nil =>
      intro mach cached steadyCalls inRange
      exact ⟨[], rfl, List.forall_mem_nil _, List.Pairwise.nil⟩
  | cons call rest ih =>
      intro mach cached steadyCalls inRange
      have timebase := steadyCalls.timebase call List.mem_cons_self
      obtain ⟨callInRange, restInRange⟩ := List.forall_mem_cons.mp inRange
      obtain ⟨stamp, taken, shows⟩ := takeStamp_shows nonzero cached steady timebase callInRange
      have next := earlySetup_cached build call.readings mach numer denom nonzero cached timebase
      have nextCached : MachCached build.abi numer denom (earlySetup build call.readings mach).2 := by
        rw [next]
        exact setup_cached build.abi numer denom nonzero
      obtain ⟨values, restTaken, restShow, restOrdered⟩ :=
        ih _ nextCached steadyCalls.tail restInRange
      refine ⟨stamp :: values, ?_, ?_, List.pairwise_cons.mpr ⟨?_, restOrdered⟩⟩
      · rw [stamps, taken, restTaken, List.map_cons]
      · intro value member
        rcases List.mem_cons.mp member with rfl | inRest
        · exact ⟨call, List.mem_cons_self, shows⟩
        · obtain ⟨later, laterMember, laterShows⟩ := restShow value inRest
          exact ⟨later, List.mem_cons_of_mem call laterMember, laterShows⟩
      · intro value member
        obtain ⟨later, laterMember, laterShows⟩ := restShow value member
        apply shows.notAfter laterShows
        apply clockNanos_mono
        · rw [steadyCalls.offset call List.mem_cons_self,
            steadyCalls.offset later (List.mem_cons_of_mem call laterMember)]
        · exact (List.pairwise_cons.mp steadyCalls.ordered).1 later laterMember

def QuantisedBelow (build : Build) (mach : MachStatics) (readings : Readings) : Prop :=
  ∀ quantised raw : Api, ∃ below above,
    takeStamp build .monotonic mach ⟨quantised, readings⟩ = some below ∧
      takeStamp build .monotonicRaw mach ⟨raw, readings⟩ = some above ∧
      below.spec.total ≤ above.spec.total ∧ above.spec.total < below.spec.total + 1000

theorem quantised_below (build : Build) (numer denom : UInt32) (mach : MachStatics)
    (readings : Readings) (nonzero : numer ≠ 0) (cached : MachCached build.abi numer denom mach)
    (timebase : readings.timebase = some (numer, denom))
    (inRange : InRange build.abi (machMultOf numer denom) .monotonicRaw readings) :
    QuantisedBelow build mach readings := by
  intro quantised raw
  have sameRange : InRange build.abi (machMultOf numer denom) .monotonic readings :=
    ⟨inRange.ticks, inRange.scaled, inRange.seconds⟩
  obtain ⟨below, belowTaken, belowShows⟩ :=
    @takeStamp_shows build numer denom mach .monotonic ⟨quantised, readings⟩ nonzero cached rfl
      timebase sameRange
  obtain ⟨above, aboveTaken, aboveShows⟩ :=
    @takeStamp_shows build numer denom mach .monotonicRaw ⟨raw, readings⟩ nonzero cached rfl
      timebase inRange
  refine ⟨below, above, belowTaken, aboveTaken, ?_⟩
  rw [belowShows.total, aboveShows.total]
  simp only [ClockId.nanos, ClockId.ticks]
  omega

theorem clock_neverDecreases (build : Build) (numer denom : UInt32) (offset : UInt64)
    (nonzero : numer ≠ 0) (mach : MachStatics)
    (reached : MachReached build.abi (some (numer, denom)) mach) :
    (∀ (clk : ClockId) (calls : List Call), clk.isSteady →
      SteadyCalls (numer, denom) offset calls →
      (∀ call ∈ calls, InRange build.abi (machMultOf numer denom) clk call.readings) →
      NeverDecrease build clk mach calls) ∧
    ∀ readings : Readings, readings.timebase = some (numer, denom) →
      InRange build.abi (machMultOf numer denom) .monotonicRaw readings →
      QuantisedBelow build mach readings := by
  have cached := machReached_cached build.abi numer denom nonzero mach reached
  constructor
  · intro clk calls steady steadyCalls inRange
    obtain ⟨values, taken, -, ordered⟩ := stamps_ordered build numer denom offset clk nonzero steady
      calls mach cached steadyCalls inRange
    exact ⟨values, taken, ordered⟩
  · intro readings timebase inRange
    exact quantised_below build numer denom mach readings nonzero cached timebase inRange

def Readings.ofMachTime (timebase : UInt32 × UInt32) (offset machTime : UInt64) : Readings :=
  { Readings.zero with
    timebase := some timebase
    machAbsoluteTime := machTime
    sleep := { SleepStatics.initial with sleepOffset := offset } }

theorem clock_neverDecreases_mixed :
    NeverDecrease ⟨.lp64, false⟩ .monotonic .initial
      [⟨.gettime, .ofMachTime (125, 3) 5000 24000000⟩,
        ⟨.gettimeNsecNp, .ofMachTime (125, 3) 5000 24000001⟩] := by
  apply (clock_neverDecreases ⟨.lp64, false⟩ 125 3 5000 (by decide) .initial .initial).1 .monotonic _
    rfl
  · constructor
    · decide
    · decide
    · decide
  · intro call member
    rcases List.mem_pair.mp member with rfl | rfl
    · exact ⟨by decide, by decide, by decide⟩
    · exact ⟨by decide, by decide, by decide⟩

theorem neverDecrease_pair {build : Build} {clk : ClockId} {mach : MachStatics} {first second : Call}
    (before after : Stamp)
    (run : stamps build clk mach [first, second] = [some before, some after])
    (steady : NeverDecrease build clk mach [first, second]) : before.NotAfter after := by
  obtain ⟨values, taken, ordered⟩ := steady
  rw [run] at taken
  have values_eq : [before, after] = values :=
    List.map_injective_iff.mpr (Option.some_injective Stamp) taken
  rw [← values_eq] at ordered
  exact (List.pairwise_cons.mp ordered).1 after List.mem_cons_self

def NeverDecreasesBelow (bound : Nat) (abi : Abi) : Prop :=
  ∀ (numer denom : UInt32) (offset : UInt64) (clk : ClockId) (calls : List Call),
    numer ≠ 0 → denom ≠ 0 → clk.isSteady → SteadyCalls (numer, denom) offset calls →
    (∀ call ∈ calls, scaledTicks (machMultOf numer denom) (clk.ticks call.readings) < bound) →
    NeverDecrease ⟨abi, false⟩ clk .initial calls

/-- In each data model the clock can go back below `2 ^ 62` nanoseconds: where the seconds leave
a 32-bit `time_t`, and where a slow timebase lets the continuous tick count leave 64 bits. -/
theorem clock_decreases_beyond_range :
    ¬ NeverDecreasesBelow (2 ^ 62) .ilp32 ∧ ¬ NeverDecreasesBelow (2 ^ 62) .lp64 := by
  constructor
  · intro always
    have goesBack := neverDecrease_pair (.timespec ⟨2147483647, 999999999⟩)
      (.timespec ⟨-2147483648, 0⟩) (by decide)
      (always 1 1 0 .uptimeRaw
        [⟨.gettime, .ofMachTime (1, 1) 0 2147483647999999999⟩,
          ⟨.gettime, .ofMachTime (1, 1) 0 2147483648000000000⟩]
        (by decide) (by decide) rfl ⟨by decide, by decide, by decide⟩ (by decide))
    exact absurd goesBack (by decide)
  · intro always
    have goesBack := neverDecrease_pair (.nanos 4294967295) (.nanos 0) (by decide)
      (always 1 4294967295 1 .monotonicRaw
        [⟨.gettimeNsecNp, .ofMachTime (1, 4294967295) 1 18446744073709551614⟩,
          ⟨.gettimeNsecNp, .ofMachTime (1, 4294967295) 1 18446744073709551615⟩]
        (by decide) (by decide) rfl ⟨by decide, by decide, by decide⟩ (by decide))
    exact absurd goesBack (by decide)

end LegacySupport.Time
