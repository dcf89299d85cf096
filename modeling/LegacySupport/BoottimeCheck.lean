import LegacySupport.SleepOffset
import LegacySupport.ClockAgreement

/-!
The check of `get_sleep_offset` against a boottime later than the time of day, which relies on
the sign of `tvdiff2mach`: with a 32-bit `tv_sec` the unsigned difference hides it.
-/

namespace LegacySupport.Time

open CInt

def Timeval.seconds (abi : Abi) (tv : Timeval) : Int :=
  match abi with
  | .ilp32 => toUnsigned 32 tv.sec
  | .lp64 => tv.sec

def Timeval.nanos (abi : Abi) (tv : Timeval) : Int :=
  tv.seconds abi * 1000000000 + tv.usec * 1000

structure Timeval.Valid (abi : Abi) (tv : Timeval) : Prop where
  sec : abi.IsLong tv.sec
  micros : tv.Micros

def tvSeconds (abi : Abi) (tv1 tv2 : Timeval) : Int :=
  match abi with
  | .ilp32 => toUnsigned 32 (toUnsigned 32 tv1.sec - toUnsigned 32 tv2.sec)
  | .lp64 => abi.long (tv1.sec - tv2.sec)

def tickDifference (abi : Abi) (mach : MachStatics) (tv1 tv2 : Timeval) : Int :=
  ((tvSeconds abi tv1 tv2 * 1000000000 + int (tv1.usec - tv2.usec) * 1000) *
    mach.denom.toNat).tdiv mach.numer.toNat

structure DiffDefined (abi : Abi) (mach : MachStatics) (tv1 tv2 : Timeval) : Prop where
  seconds : abi = .lp64 → abi.IsLong (tv1.sec - tv2.sec)
  lower : -2 ^ 63 ≤ tickDifference abi mach tv1 tv2
  upper : tickDifference abi mach tv1 tv2 < 2 ^ 63

def LaterByTick (abi : Abi) (mach : MachStatics) (timeofday boottime : Timeval) : Prop :=
  (mach.numer.toNat : Int) ≤
    (boottime.nanos abi - timeofday.nanos abi) * mach.denom.toNat

instance (abi : Abi) (mach : MachStatics) (timeofday boottime : Timeval) :
    Decidable (LaterByTick abi mach timeofday boottime) :=
  inferInstanceAs (Decidable (_ ≤ _))

structure OffsetsUnchanged (before after : SleepStatics) : Prop where
  sleepOffset : after.sleepOffset = before.sleepOffset
  firstOffset : after.firstOffset = before.firstOffset
  sleepInfo : after.sleepInfo = before.sleepInfo

/-- The sanity check on the boottime works: the difference is well defined and negative, so
that `get_sleep_offset` leaves the offsets alone. -/
structure BoottimeRejected (abi : Abi) (mach : MachStatics) (timeofday boottime : Timeval) :
    Prop where
  defined : DiffDefined abi mach timeofday boottime
  negative : tvdiff2mach abi mach timeofday boottime < 0
  rejects : ∀ (env : SleepEnv) (statics : SleepStatics), env.abi = abi → env.mach = mach →
    env.sleepofsInfo.1 = 0 → env.sleepofsInfo.2.timeofday = timeofday →
    env.sleepofsInfo.2.boottime = boottime → OffsetsUnchanged statics (getSleepOffset env statics)

/-- The check can see the distance: both times are in the same second of a 32-bit `tv_sec`, or
the distance of 64-bit times is representable in seconds and in ticks. -/
def DistanceVisible (abi : Abi) (mach : MachStatics) (timeofday boottime : Timeval) : Prop :=
  match abi with
  | .ilp32 => timeofday.seconds .ilp32 = boottime.seconds .ilp32
  | .lp64 =>
      -2 ^ 63 ≤ timeofday.sec - boottime.sec ∧
        (boottime.nanos .lp64 - timeofday.nanos .lp64) * mach.denom.toNat <
          (2 ^ 63 + 1) * mach.numer.toNat

theorem tvdiff2mach_eq (abi : Abi) (mach : MachStatics) (tv1 tv2 : Timeval) :
    tvdiff2mach abi mach tv1 tv2 = Int64.ofInt (tickDifference abi mach tv1 tv2) := by
  cases abi with
  | ilp32 => rfl
  | lp64 => rfl

theorem toInt_tvdiff2mach {abi : Abi} {mach : MachStatics} {tv1 tv2 : Timeval}
    (defined : DiffDefined abi mach tv1 tv2) :
    (tvdiff2mach abi mach tv1 tv2).toInt = tickDifference abi mach tv1 tv2 := by
  rw [tvdiff2mach_eq]
  exact Int64.toInt_ofInt_of_le defined.lower defined.upper

theorem tvdiff2mach_neg_iff {abi : Abi} {mach : MachStatics} {tv1 tv2 : Timeval}
    (defined : DiffDefined abi mach tv1 tv2) :
    tvdiff2mach abi mach tv1 tv2 < 0 ↔ tickDifference abi mach tv1 tv2 < 0 := by
  rw [Int64.lt_iff_toInt_lt, toInt_tvdiff2mach defined, Int64.toInt_zero]

theorem micros_diff {tv1 tv2 : Timeval} (micros1 : tv1.Micros) (micros2 : tv2.Micros) :
    int (tv1.usec - tv2.usec) = tv1.usec - tv2.usec := by
  obtain ⟨lower1, upper1⟩ := micros1
  obtain ⟨lower2, upper2⟩ := micros2
  exact int_small (by omega) (by omega)

theorem tdiv_neg_of_le {distance denom numer : Int} (positive : 0 < numer)
    (reaches : numer ≤ distance * denom) :
    (-distance * denom).tdiv numer = -(distance * denom / numer) ∧
      1 ≤ distance * denom / numer := by
  have nonneg : 0 ≤ distance * denom := by omega
  constructor
  · rw [Int.neg_mul, Int.neg_tdiv, Int.tdiv_eq_ediv_of_nonneg nonneg]
  · exact (Int.le_ediv_iff_mul_le positive).mpr (by omega)

theorem getSleepOffset_rejects (env : SleepEnv) (statics : SleepStatics)
    (negative : tvdiff2mach env.abi env.mach env.sleepofsInfo.2.timeofday
      env.sleepofsInfo.2.boottime < 0) (success : env.sleepofsInfo.1 = 0) :
    OffsetsUnchanged statics (getSleepOffset env statics) := by
  unfold getSleepOffset prepareSleepOffset
  by_cases failed : env.machScale ≠ 0
  · rw [if_pos failed]
    exact ⟨rfl, rfl, rfl⟩
  · rw [if_neg failed]
    simp only [success, ne_eq, not_true, if_false, negative, if_true]
    exact ⟨rfl, rfl, rfl⟩

section Later

variable {abi : Abi} {mach : MachStatics} {timeofday boottime : Timeval}

theorem tickDifference_eq (positive : 0 < mach.numer.toNat) (tod : timeofday.Valid abi)
    (boot : boottime.Valid abi) (later : LaterByTick abi mach timeofday boottime)
    (exact : tvSeconds abi timeofday boottime = timeofday.seconds abi - boottime.seconds abi) :
    tickDifference abi mach timeofday boottime =
        -((boottime.nanos abi - timeofday.nanos abi) * mach.denom.toNat / mach.numer.toNat) ∧
      1 ≤ (boottime.nanos abi - timeofday.nanos abi) * mach.denom.toNat / mach.numer.toNat := by
  have distance : (timeofday.seconds abi - boottime.seconds abi) * 1000000000 +
      (timeofday.usec - boottime.usec) * 1000 =
        -(boottime.nanos abi - timeofday.nanos abi) := by
    unfold Timeval.nanos
    ring
  rw [tickDifference, exact, micros_diff tod.micros boot.micros, distance]
  exact tdiv_neg_of_le (by omega) later

theorem tickDifference_nonneg (tod : timeofday.Valid abi) (boot : boottime.Valid abi)
    (wrapped : 1 ≤ tvSeconds abi timeofday boottime) :
    0 ≤ tickDifference abi mach timeofday boottime := by
  obtain ⟨todLower, todUpper⟩ := tod.micros
  obtain ⟨bootLower, bootUpper⟩ := boot.micros
  rw [tickDifference, micros_diff tod.micros boot.micros]
  apply Int.tdiv_nonneg
  · apply Int.mul_nonneg
    · omega
    · exact Int.natCast_nonneg _
  · exact Int.natCast_nonneg _

theorem rejected_of_ticks (defined : DiffDefined abi mach timeofday boottime)
    (negative : tickDifference abi mach timeofday boottime < 0) :
    BoottimeRejected abi mach timeofday boottime where
  defined := defined
  negative := (tvdiff2mach_neg_iff defined).mpr negative
  rejects := by
    intro env statics sameAbi sameMach success sameTod sameBoot
    apply getSleepOffset_rejects env statics _ success
    rw [sameAbi, sameMach, sameTod, sameBoot]
    exact (tvdiff2mach_neg_iff defined).mpr negative

theorem not_rejected_of_wrapped (tod : timeofday.Valid abi) (boot : boottime.Valid abi)
    (wrapped : 1 ≤ tvSeconds abi timeofday boottime) :
    ¬ BoottimeRejected abi mach timeofday boottime := by
  intro rejected
  have negative := (tvdiff2mach_neg_iff rejected.defined).mp rejected.negative
  have nonneg := @tickDifference_nonneg abi mach timeofday boottime tod boot wrapped
  omega

theorem LaterByTick.seconds_le (positive : 0 < mach.numer.toNat) (tod : timeofday.Valid abi)
    (boot : boottime.Valid abi) (later : LaterByTick abi mach timeofday boottime) :
    timeofday.seconds abi ≤ boottime.seconds abi := by
  obtain ⟨todLower, todUpper⟩ := tod.micros
  obtain ⟨bootLower, bootUpper⟩ := boot.micros
  have distance : 0 < boottime.nanos abi - timeofday.nanos abi := by
    by_contra nonpos
    have product : (boottime.nanos abi - timeofday.nanos abi) * mach.denom.toNat ≤ 0 :=
      Int.mul_nonpos_of_nonpos_of_nonneg (by omega) (Int.natCast_nonneg _)
    unfold LaterByTick at later
    omega
  unfold Timeval.nanos at distance
  omega

end Later

theorem boottimeRejected_iff_ilp32 (mach : MachStatics) (timeofday boottime : Timeval)
    (positive : 0 < mach.numer.toNat) (tod : timeofday.Valid .ilp32) (boot : boottime.Valid .ilp32)
    (later : LaterByTick .ilp32 mach timeofday boottime) :
    BoottimeRejected .ilp32 mach timeofday boottime ↔
      timeofday.seconds .ilp32 = boottime.seconds .ilp32 := by
  have ordered := later.seconds_le positive tod boot
  have todSeconds : timeofday.seconds .ilp32 = timeofday.sec % 2 ^ 32 := by
    rw [Timeval.seconds, toUnsigned, Int.toNat_of_nonneg (Int.emod_nonneg _ (by decide))]
  have bootSeconds : boottime.seconds .ilp32 = boottime.sec % 2 ^ 32 := by
    rw [Timeval.seconds, toUnsigned, Int.toNat_of_nonneg (Int.emod_nonneg _ (by decide))]
  have wrapped : tvSeconds .ilp32 timeofday boottime =
      (timeofday.seconds .ilp32 - boottime.seconds .ilp32) % 2 ^ 32 := by
    rw [tvSeconds, toUnsigned, Int.toNat_of_nonneg (Int.emod_nonneg _ (by decide))]
    rfl
  constructor
  · intro rejected
    by_contra different
    apply not_rejected_of_wrapped tod boot _ rejected
    omega
  · intro same
    have exact : tvSeconds .ilp32 timeofday boottime =
        timeofday.seconds .ilp32 - boottime.seconds .ilp32 := by omega
    obtain ⟨ticks, atLeastOne⟩ := tickDifference_eq positive tod boot later exact
    obtain ⟨todLower, todUpper⟩ := tod.micros
    obtain ⟨bootLower, bootUpper⟩ := boot.micros
    have denomBound := mach.denom.toNat_lt
    have distance : boottime.nanos .ilp32 - timeofday.nanos .ilp32 ≤ 1000000000 := by
      unfold Timeval.nanos
      omega
    have small : (boottime.nanos .ilp32 - timeofday.nanos .ilp32) * mach.denom.toNat /
        mach.numer.toNat < 2 ^ 63 := by
      have product : (boottime.nanos .ilp32 - timeofday.nanos .ilp32) * mach.denom.toNat ≤
          1000000000 * mach.denom.toNat :=
        Int.mul_le_mul_of_nonneg_right distance (Int.natCast_nonneg _)
      have quotient := Int.ediv_le_self mach.numer.toNat
        (show 0 ≤ (boottime.nanos .ilp32 - timeofday.nanos .ilp32) * mach.denom.toNat by
          unfold LaterByTick at later
          omega)
      omega
    apply rejected_of_ticks
    · refine ⟨fun wide => ?_, by omega, by omega⟩
      cases wide
    · omega

theorem boottimeRejected_iff_lp64 (mach : MachStatics) (timeofday boottime : Timeval)
    (positive : 0 < mach.numer.toNat) (tod : timeofday.Valid .lp64) (boot : boottime.Valid .lp64)
    (later : LaterByTick .lp64 mach timeofday boottime) :
    BoottimeRejected .lp64 mach timeofday boottime ↔
      -2 ^ 63 ≤ timeofday.sec - boottime.sec ∧
        (boottime.nanos .lp64 - timeofday.nanos .lp64) * mach.denom.toNat <
          (2 ^ 63 + 1) * mach.numer.toNat := by
  have ordered : timeofday.sec ≤ boottime.sec := later.seconds_le positive tod boot
  have numerPositive : (0 : Int) < mach.numer.toNat := by omega
  constructor
  · intro rejected
    have fits := rejected.defined.seconds rfl
    obtain ⟨ticks, -⟩ := tickDifference_eq positive tod boot later (long_of_isLong fits)
    have lower := rejected.defined.lower
    refine ⟨fits.1, ?_⟩
    apply (Int.ediv_lt_iff_lt_mul numerPositive).mp
    omega
  · rintro ⟨secondsFit, ticksFit⟩
    have fits : Abi.lp64.IsLong (timeofday.sec - boottime.sec) := by
      rw [isLong_lp64]
      omega
    obtain ⟨ticks, atLeastOne⟩ := tickDifference_eq positive tod boot later (long_of_isLong fits)
    have small := (Int.ediv_lt_iff_lt_mul numerPositive).mpr ticksFit
    apply rejected_of_ticks
    · exact ⟨fun _ => fits, by omega, by omega⟩
    · omega

theorem boottimeRejected_iff (abi : Abi) (mach : MachStatics) (timeofday boottime : Timeval)
    (positive : 0 < mach.numer.toNat) (tod : timeofday.Valid abi) (boot : boottime.Valid abi)
    (later : LaterByTick abi mach timeofday boottime) :
    BoottimeRejected abi mach timeofday boottime ↔
      DistanceVisible abi mach timeofday boottime := by
  cases abi with
  | ilp32 => exact boottimeRejected_iff_ilp32 mach timeofday boottime positive tod boot later
  | lp64 => exact boottimeRejected_iff_lp64 mach timeofday boottime positive tod boot later

theorem boottimeRejected_within_second :
    BoottimeRejected .ilp32 ⟨1, 1, 0, 0⟩ ⟨1700000000, 250000⟩ ⟨1700000000, 750000⟩ ↔
      DistanceVisible .ilp32 ⟨1, 1, 0, 0⟩ ⟨1700000000, 250000⟩ ⟨1700000000, 750000⟩ := by
  apply boottimeRejected_iff
  · decide
  · exact ⟨by decide, by decide, by decide⟩
  · exact ⟨by decide, by decide, by decide⟩
  · decide

def SleepEnv.setBack : SleepEnv where
  abi := .ilp32
  mach := ⟨1, 1, 0, 0⟩
  machScale := 0
  sleepofsInfo := (0, { SleepofsInfo.zero with
    timeofday := ⟨1700000000, 0⟩, boottime := ⟨1700000001, 0⟩ })
  seenMachBefore := 0
  lock := 0

/-- With a 32-bit `tv_sec` that second becomes nearly `2 ^ 32` seconds, and `get_sleep_offset`
takes them as the sleep offset. -/
theorem tvdiff2mach_hides_later_boottime :
    (¬ ∀ (abi : Abi) (mach : MachStatics) (timeofday boottime : Timeval),
      0 < mach.numer.toNat → timeofday.Valid abi → boottime.Valid abi →
      LaterByTick abi mach timeofday boottime →
      tvdiff2mach abi mach timeofday boottime < 0) ∧
    ¬ OffsetsUnchanged .initial (getSleepOffset .setBack .initial) := by
  constructor
  · intro always
    have negative := always .ilp32 ⟨1, 1, 0, 0⟩ ⟨1700000000, 0⟩ ⟨1700000001, 0⟩ (by decide)
      ⟨by decide, by decide, by decide⟩ ⟨by decide, by decide, by decide⟩ (by decide)
    exact absurd negative (by decide)
  · intro unchanged
    exact absurd unchanged.sleepOffset (by decide)

end LegacySupport.Time
