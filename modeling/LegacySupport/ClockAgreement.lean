import LegacySupport.ClockCore

/-!
The two clock interfaces tell the same time: for one set of readings the timespec is
normalised and its total is what the nanosecond interface returns, modulo `2 ^ 64`.
-/

namespace LegacySupport.Time

open CInt

def Timespec.total (ts : Timespec) : Int := ts.sec * 1000000000 + ts.nsec

def Timespec.Normal (ts : Timespec) : Prop := 0 ≤ ts.nsec ∧ ts.nsec < 1000000000

instance (ts : Timespec) : Decidable ts.Normal := inferInstanceAs (Decidable (_ ∧ _))

def Timeval.Micros (tv : Timeval) : Prop := 0 ≤ tv.usec ∧ tv.usec < 1000000

/-- A pair of CPU times whose sum is representable, before and after the carry: seconds are
added in one type and the carry in another, which is wider only for thread times. -/
structure CpuPair (sumFits carryFits : Int → Prop) (user system : Timeval) : Prop where
  userMicros : user.Micros
  systemMicros : system.Micros
  sum : sumFits (user.sec + system.sec)
  carried : user.usec + system.usec ≥ 1000000 → carryFits (user.sec + system.sec + 1)

def ScaledFits (abi : Abi) (nanos : UInt64) : Prop := abi.IsLong (nanos.toNat / 1000000000 : Nat)

def ClockId.machTime? (build : Build) (readings : Readings) : ClockId → Option UInt64
  | .monotonic | .monotonicRaw =>
      some (machContinuousTime readings.sleep readings.machAbsoluteTime)
  | .monotonicRawApprox =>
      some (machContinuousApproximateTime readings.sleep readings.machApproximateTime)
  | .uptimeRaw => some readings.machAbsoluteTime
  | .uptimeRawApprox => some readings.machApproximateTime
  | .threadCputimeId => if build.hiresThreadTime then some readings.threadSelfusage else none
  | .realtime | .processCputimeId | .unsupported => none

def Readings.Sound (build : Build) (readings : Readings) (mach : MachStatics) (clk : ClockId) :
    Prop :=
  match clk.machTime? build readings with
  | some machTime =>
      ScaledFits build.abi (mach2nanos (earlySetup build readings mach).2 machTime)
  | none =>
      match clk with
      | .realtime => readings.gettimeofday.2.Micros
      | .processCputimeId =>
          CpuPair build.abi.IsLong build.abi.IsLong readings.getrusage.2.1 readings.getrusage.2.2
      | .threadCputimeId =>
          CpuPair Abi.ilp32.IsLong build.abi.IsLong readings.threadInfo.2.1 readings.threadInfo.2.2
      | _ => False

structure Agrees (ts : Timespec) (nanos : UInt64) : Prop where
  normal : ts.Normal
  congruent : (nanos.toNat : Int) = ts.total % 2 ^ 64

theorem Agrees.exact {ts : Timespec} {nanos : UInt64} (agrees : Agrees ts nanos)
    (lower : 0 ≤ ts.total) (upper : ts.total < 2 ^ 64) : (nanos.toNat : Int) = ts.total := by
  rw [agrees.congruent, Int.emod_eq_of_lt lower upper]

theorem toNat_ofInt_uint64 (value : Int) : ((UInt64.ofInt value).toNat : Int) = value % 2 ^ 64 := by
  have reduced : (UInt64.ofInt value).toNat = (value % 2 ^ 64).toNat % 2 ^ 64 := rfl
  omega

theorem toNat_nanosOf (sec usec : Int) :
    ((nanosOf sec usec).toNat : Int) = (sec * 1000000000 + int (usec * 1000)) % 2 ^ 64 := by
  have seconds := toNat_ofInt_uint64 sec
  have micros := toNat_ofInt_uint64 (int (usec * 1000))
  have scale : billion64.toNat = 1000000000 := rfl
  rw [nanosOf, UInt64.toNat_add, UInt64.toNat_mul, scale]
  omega

theorem int_small {value : Int} (lower : -2147483648 ≤ value) (upper : value < 2147483648) :
    int value = value := by
  rw [int_eq]
  omega

theorem nanos2timespec_nsec (abi : Abi) (nanos : UInt64) :
    (nanos2timespec abi nanos).nsec = (nanos.toNat % 1000000000 : Nat) := by
  have remainder : (nanos.toUInt32 - (nanos / billion32.toUInt64).toUInt32 * billion32).toNat =
      nanos.toNat % 1000000000 := by
    have divisor : billion32.toUInt64.toNat = 1000000000 := rfl
    have factor : billion32.toNat = 1000000000 := rfl
    rw [UInt32.toNat_sub, UInt32.toNat_mul, UInt64.toNat_toUInt32, UInt64.toNat_toUInt32,
      UInt64.toNat_div, divisor, factor]
    omega
  simp only [nanos2timespec, remainder]
  apply long_of_isLong
  cases abi <;> simp <;> omega

theorem nanos2timespec_total {abi : Abi} {nanos : UInt64} (fits : ScaledFits abi nanos) :
    (nanos2timespec abi nanos).total = nanos.toNat := by
  have divisor : billion32.toUInt64.toNat = 1000000000 := rfl
  have seconds : (nanos2timespec abi nanos).sec = (nanos.toNat / 1000000000 : Nat) := by
    simp only [nanos2timespec, UInt64.toNat_div, divisor]
    exact long_of_isLong fits
  rw [Timespec.total, seconds, nanos2timespec_nsec]
  omega

theorem nanos2timespec_agrees {abi : Abi} {nanos : UInt64} (fits : ScaledFits abi nanos) :
    Agrees (nanos2timespec abi nanos) nanos where
  normal := by
    rw [Timespec.Normal, nanos2timespec_nsec]
    omega
  congruent := by
    have bound := nanos.toNat_lt
    rw [nanos2timespec_total fits]
    omega

theorem toNat_quantised (value : UInt64) :
    (value / 1000 * 1000).toNat = value.toNat / 1000 * 1000 := by
  have thousand : (1000 : UInt64).toNat = 1000 := rfl
  have bound := value.toNat_lt
  rw [UInt64.toNat_mul, UInt64.toNat_div, thousand]
  omega

theorem scaledFits_quantised {abi : Abi} {nanos : UInt64} (fits : ScaledFits abi nanos) :
    ScaledFits abi (nanos / 1000 * 1000) := by
  unfold ScaledFits at fits ⊢
  rw [toNat_quantised]
  cases abi <;> simp at fits ⊢ <;> omega

theorem timeval_agrees {tv : Timeval} (micros : tv.Micros) :
    Agrees { sec := tv.sec, nsec := int (tv.usec * 1000) } (nanosOf tv.sec tv.usec) := by
  obtain ⟨lower, upper⟩ := micros
  have scaled : int (tv.usec * 1000) = tv.usec * 1000 := int_small (by omega) (by omega)
  exact {
    normal := by
      simp only [Timespec.Normal, scaled]
      omega
    congruent := by rw [toNat_nanosOf]; rfl }

theorem CpuPair.micros {sumFits carryFits : Int → Prop} {user system : Timeval}
    (pair : CpuPair sumFits carryFits user system) :
    int (user.usec + system.usec) = user.usec + system.usec ∧
      int ((user.usec + system.usec) * 1000) = (user.usec + system.usec) * 1000 := by
  obtain ⟨userLower, userUpper⟩ := pair.userMicros
  obtain ⟨systemLower, systemUpper⟩ := pair.systemMicros
  exact ⟨int_small (by omega) (by omega), int_small (by omega) (by omega)⟩

theorem timeradd_agrees {abi : Abi} {user system : Timeval}
    (pair : CpuPair abi.IsLong abi.IsLong user system) :
    Agrees (timevalToTimespec (timeradd abi user system))
      (nanosOf (abi.long (user.sec + system.sec)) (int (user.usec + system.usec))) := by
  obtain ⟨micros, scaled⟩ := pair.micros
  obtain ⟨⟨userLower, userUpper⟩, ⟨systemLower, systemUpper⟩, sum, carried⟩ := pair
  have seconds := long_of_isLong sum
  have nanos := toNat_nanosOf (user.sec + system.sec) (user.usec + system.usec)
  rw [scaled] at nanos
  rw [seconds, micros]
  simp only [timeradd, seconds, micros]
  split
  next carry =>
    have carrySeconds := long_of_isLong (carried carry)
    have carryMicros : int (user.usec + system.usec - 1000000) =
        user.usec + system.usec - 1000000 := int_small (by omega) (by omega)
    have carryScaled : int ((user.usec + system.usec - 1000000) * 1000) =
        (user.usec + system.usec - 1000000) * 1000 := int_small (by omega) (by omega)
    rw [carrySeconds, carryMicros]
    constructor
    · simp only [Timespec.Normal, timevalToTimespec, carryScaled]
      omega
    · rw [nanos]
      simp only [Timespec.total, timevalToTimespec, carryScaled]
      congr 1
      ring
  next noCarry =>
    constructor
    · simp only [Timespec.Normal, timevalToTimespec, scaled]
      omega
    · rw [nanos]
      simp only [Timespec.total, timevalToTimespec, scaled]

theorem reachesBillion_iff {abi : Abi} {nsec : Int} (lower : 0 ≤ nsec)
    (upper : nsec < 2147483648) : reachesBillion abi nsec = true ↔ 1000000000 ≤ nsec := by
  cases abi <;> simp [reachesBillion, billion32, toUnsigned]
  omega

theorem carryNanos_agrees {abi : Abi} {ts : Timespec} {nanos : UInt64}
    (lower : 0 ≤ ts.nsec) (upper : ts.nsec < 2000000000)
    (carried : 1000000000 ≤ ts.nsec → abi.IsLong (ts.sec + 1))
    (congruent : (nanos.toNat : Int) = ts.total % 2 ^ 64) :
    Agrees (carryNanos abi ts) nanos ∧ (carryNanos abi ts).total = ts.total := by
  have carries := @reachesBillion_iff abi _ lower (by omega)
  unfold carryNanos
  split
  next reaches =>
    have reached := carries.mp reaches
    have billion : ((billion32.toNat : Nat) : Int) = 1000000000 := rfl
    have seconds := long_of_isLong (carried reached)
    have nanoseconds : abi.long (ts.nsec - 1000000000) = ts.nsec - 1000000000 :=
      long_of_isLong (by cases abi <;> simp <;> omega)
    have total : Timespec.total ⟨ts.sec + 1, ts.nsec - 1000000000⟩ = ts.total := by
      simp only [Timespec.total]
      ring
    rw [billion, seconds, nanoseconds]
    refine ⟨⟨?_, ?_⟩, total⟩
    · simp only [Timespec.Normal]
      omega
    · rw [total, congruent]
  next short =>
    have small : ¬ 1000000000 ≤ ts.nsec := fun reached => short (carries.mpr reached)
    refine ⟨⟨?_, congruent⟩, rfl⟩
    simp only [Timespec.Normal]
    omega

theorem zeroAsOne_agrees {ts : Timespec} {nanos : UInt64} (agrees : Agrees ts nanos)
    (lower : -2 ^ 64 < ts.total) (upper : ts.total < 2 ^ 64) :
    Agrees (if ts.sec = 0 ∧ ts.nsec = 0 then { ts with nsec := 1 } else ts)
      (if nanos ≠ 0 then nanos else 1) := by
  have congruent := agrees.congruent
  have normal := agrees.normal
  have zero : nanos = 0 ↔ nanos.toNat = 0 := by rw [← UInt64.toNat_inj]; rfl
  have total : ts.total = ts.sec * 1000000000 + ts.nsec := rfl
  unfold Timespec.Normal at normal
  by_cases none : ts.sec = 0 ∧ ts.nsec = 0
  · have nanosZero : nanos = 0 := zero.mpr (by omega)
    simp only [none, nanosZero, and_self, if_true, ne_eq, not_true, if_false]
    exact ⟨by decide, by decide⟩
  · have nanosNonzero : nanos ≠ 0 := fun nanosZero => by
      have := zero.mp nanosZero
      omega
    simpa only [none, if_false, nanosNonzero, ne_eq, not_false_eq_true, if_true] using agrees

theorem thread_agrees {abi : Abi} {user system : Timeval}
    (pair : CpuPair Abi.ilp32.IsLong abi.IsLong user system) :
    Agrees (threadTimespec abi user system) (threadNanos user system) := by
  obtain ⟨micros, scaled⟩ := pair.micros
  obtain ⟨⟨userLower, userUpper⟩, ⟨systemLower, systemUpper⟩, sum, carried⟩ := pair
  have seconds : int (user.sec + system.sec) = user.sec + system.sec := long_of_isLong sum
  have nanos := toNat_nanosOf (user.sec + system.sec) (user.usec + system.usec)
  simp only [isLong_ilp32] at sum
  simp only [threadTimespec, threadNanos, seconds, micros, scaled]
  rw [scaled] at nanos
  obtain ⟨agrees, total⟩ := @carryNanos_agrees abi
    ⟨user.sec + system.sec, (user.usec + system.usec) * 1000⟩ _
    (by simp only; omega) (by simp only; omega) (fun carry => carried (by simp only at carry; omega))
    nanos
  simp only [Timespec.total] at total
  exact zeroAsOne_agrees agrees (by simp only [Timespec.total]; omega)
    (by simp only [Timespec.total]; omega)

/-- The two interfaces on one reading: the same instant modulo `2 ^ 64`, and the same integer
for mach-based clocks and wherever an unsigned 64-bit value can hold it. -/
def SameInstant (mach : Bool) (ts : Timespec) (nanos : UInt64) : Prop :=
  ts.Normal ∧ (nanos.toNat : Int) = ts.total % 2 ^ 64 ∧
    ((mach = true ∨ (0 ≤ ts.total ∧ ts.total < 2 ^ 64)) → (nanos.toNat : Int) = ts.total)

theorem Agrees.sameInstant {ts : Timespec} {nanos : UInt64} (agrees : Agrees ts nanos) :
    SameInstant false ts nanos := by
  refine ⟨agrees.normal, agrees.congruent, ?_⟩
  rintro (mach | ⟨lower, upper⟩)
  · exact absurd mach (by decide)
  · exact agrees.exact lower upper

theorem mach_sameInstant {abi : Abi} {nanos : UInt64} (fits : ScaledFits abi nanos) :
    SameInstant true (nanos2timespec abi nanos) nanos := by
  have agrees := nanos2timespec_agrees fits
  exact ⟨agrees.normal, agrees.congruent, fun _ => (nanos2timespec_total fits).symm⟩

theorem clockGettime_agrees (build : Build) (readings : Readings) (mach : MachStatics)
    (clk : ClockId) (sound : readings.Sound build mach clk)
    (success : (clockGettime build readings mach clk).value.1 = 0) :
    ∃ ts, (clockGettime build readings mach clk).value.2 = some ts ∧
      SameInstant (clk.machTime? build readings).isSome ts
        (clockGettimeNsecNp build readings mach clk).value := by
  cases clk with
  | realtime =>
      refine ⟨_, rfl, ?_⟩
      have ok : readings.gettimeofday.1 = 0 := success
      simp only [clockGettimeNsecNp, ok, ne_eq, not_true, if_false]
      exact (timeval_agrees sound).sameInstant
  | processCputimeId =>
      refine ⟨_, rfl, ?_⟩
      have ok : readings.getrusage.1 = 0 := success
      simp only [clockGettimeNsecNp, ok, ne_eq, not_true, if_false]
      exact (timeradd_agrees sound).sameInstant
  | threadCputimeId =>
      cases hires : build.hiresThreadTime with
      | true =>
          simp only [Readings.Sound, ClockId.machTime?, hires, if_true] at sound
          refine ⟨_, by simp only [clockGettime, getThreadUsageTs, hires, if_true]; rfl, ?_⟩
          simp only [ClockId.machTime?, hires, if_true, clockGettimeNsecNp, getThreadUsageNs]
          exact mach_sameInstant sound
      | false =>
          simp only [Readings.Sound, ClockId.machTime?, hires, Bool.false_eq_true,
            if_false] at sound
          have ok : readings.threadInfo.1 = 0 := by
            by_contra failed
            simp [clockGettime, getThreadUsageTs, hires, failed] at success
          refine ⟨threadTimespec build.abi readings.threadInfo.2.1 readings.threadInfo.2.2, ?_, ?_⟩
          · simp [clockGettime, getThreadUsageTs, hires, ok]
          · simp only [ClockId.machTime?, hires, clockGettimeNsecNp, getThreadUsageNs, ok,
              Bool.false_eq_true, if_false, ne_eq, not_true]
            exact (thread_agrees sound).sameInstant
  | monotonic => exact ⟨_, rfl, mach_sameInstant (scaledFits_quantised sound)⟩
  | monotonicRaw => exact ⟨_, rfl, mach_sameInstant sound⟩
  | monotonicRawApprox => exact ⟨_, rfl, mach_sameInstant sound⟩
  | uptimeRaw => exact ⟨_, rfl, mach_sameInstant sound⟩
  | uptimeRawApprox => exact ⟨_, rfl, mach_sameInstant sound⟩
  | unsupported => simp [clockGettime] at success

def Readings.zero : Readings where
  timebase := some (1, 1)
  gettimeofday := (0, ⟨0, 0⟩)
  getrusage := (0, ⟨0, 0⟩, ⟨0, 0⟩)
  threadInfo := (0, ⟨0, 0⟩, ⟨0, 0⟩)
  threadSelfusage := 0
  machAbsoluteTime := 0
  machApproximateTime := 0
  sleep := .initial

theorem clockGettime_agrees_carry :
    ∃ ts, (clockGettime ⟨.ilp32, false⟩
        { Readings.zero with getrusage := (0, ⟨3, 750000⟩, ⟨1, 500000⟩) }
        .initial .processCputimeId).value.2 = some ts ∧
      SameInstant false ts (clockGettimeNsecNp ⟨.ilp32, false⟩
        { Readings.zero with getrusage := (0, ⟨3, 750000⟩, ⟨1, 500000⟩) }
        .initial .processCputimeId).value := by
  apply clockGettime_agrees ⟨.ilp32, false⟩ _ .initial .processCputimeId
  · refine ⟨⟨?_, ?_⟩, ⟨?_, ?_⟩, ?_, ?_⟩ <;> decide
  · rfl

/-- A second before the epoch the unsigned interface cannot tell the time; and where the carry
of two CPU times leaves a 32-bit `time_t`, the interfaces differ even modulo `2 ^ 64`. -/
theorem clockGettime_differs_beyond_range :
    (¬ ∀ (build : Build) (readings : Readings) (mach : MachStatics) (clk : ClockId),
      readings.Sound build mach clk → (clockGettime build readings mach clk).value.1 = 0 →
        ∃ ts, (clockGettime build readings mach clk).value.2 = some ts ∧ ts.Normal ∧
          ((clockGettimeNsecNp build readings mach clk).value.toNat : Int) = ts.total) ∧
    ¬ ∃ ts, (clockGettime ⟨.ilp32, false⟩
        { Readings.zero with getrusage := (0, ⟨2147483647, 999999⟩, ⟨0, 1⟩) }
        .initial .processCputimeId).value.2 = some ts ∧
      ((clockGettimeNsecNp ⟨.ilp32, false⟩
        { Readings.zero with getrusage := (0, ⟨2147483647, 999999⟩, ⟨0, 1⟩) }
        .initial .processCputimeId).value.toNat : Int) = ts.total % 2 ^ 64 := by
  constructor
  · intro always
    have instant := always ⟨.lp64, false⟩ { Readings.zero with gettimeofday := (0, ⟨-1, 0⟩) }
      .initial .realtime ⟨by decide, by decide⟩ rfl
    revert instant
    simp only [clockGettime, Option.some.injEq, exists_eq_left']
    decide
  · simp only [clockGettime, Option.some.injEq, exists_eq_left']
    decide

end LegacySupport.Time
