import LegacySupport.CInt

/-!
The clock functions of `time.c`: the mach timebase multiplier, the continuous
time offset, and the two `clock_gettime` interfaces over one set of readings.
-/

namespace LegacySupport.Time

open CInt

def errnoEINVAL : Int := 22

structure Timeval where
  sec : Int
  usec : Int
  deriving DecidableEq, Repr

structure Timespec where
  sec : Int
  nsec : Int
  deriving DecidableEq, Repr

/-! ## Mach timebase scaling -/

def extraShift : Nat := 2
def highShift : Nat := 32 + extraShift
def highBits : Nat := 64 - highShift
def numeratorMask : UInt32 := (~~~0 : UInt32) <<< UInt32.ofNat highBits
def nullScale : UInt64 := 1 <<< UInt64.ofNat highShift

structure MachStatics where
  numer : UInt32
  denom : UInt32
  mult : UInt64
  resNsec : Int
  deriving DecidableEq, Repr

def MachStatics.initial : MachStatics := ⟨0, 0, 0, 0⟩

def getMachScale (timebase : Option (UInt32 × UInt32)) (mach : MachStatics) :
    Int × MachStatics :=
  if mach.numer ≠ 0 then (0, mach)
  else match timebase with
    | none => (-1, { mach with numer := 0, denom := 1 })
    | some (numer, denom) => (0, { mach with numer, denom })

def machMultOf (numer denom : UInt32) : UInt64 :=
  if numer &&& numeratorMask = 0 then
    ((numer.toUInt64 <<< UInt64.ofNat highShift) + (denom / 2).toUInt64) / denom.toUInt64
  else
    (((numer.toUInt64 <<< 32) + (denom / 2).toUInt64) / denom.toUInt64) <<<
      UInt64.ofNat extraShift

def setupMachMult (abi : Abi) (timebase : Option (UInt32 × UInt32)) (mach : MachStatics) :
    Int × MachStatics :=
  let (ret, mach) := getMachScale timebase mach
  let mult := machMultOf mach.numer mach.denom
  let res := (mult + (nullScale - 1)) >>> UInt64.ofNat highShift
  (ret, { mach with mult, resNsec := abi.long res.toNat })

def mask64Low : UInt64 := 0xFFFFFFFF

def mmul64 (a b : UInt64) : UInt64 :=
  let aHi := (a >>> 32).toUInt32
  let aLo := a.toUInt32
  let bHi := (b >>> 32).toUInt32
  let bLo := b.toUInt32
  let low := aLo.toUInt64 * bLo.toUInt64
  let mid1 := aLo.toUInt64 * bHi.toUInt64
  let mid2 := aHi.toUInt64 * bLo.toUInt64
  let high := aHi.toUInt64 * bHi.toUInt64
  let mid1 := mid1 + ((mid2 &&& mask64Low) + (low >>> 32))
  let high := high + ((mid1 >>> 32) + (mid2 >>> 32))
  (high <<< 32) + (mid1 &&& mask64Low)

def mach2nanos (mach : MachStatics) (machTime : UInt64) : UInt64 :=
  if mach.mult = nullScale then machTime
  else mmul64 machTime mach.mult >>> UInt64.ofNat extraShift

def billion32 : UInt32 := 1000000000
def billion64 : UInt64 := 1000000000

def nanos2timespec (abi : Abi) (nanos : UInt64) : Timespec :=
  let secs := nanos / billion32.toUInt64
  let lownanos := nanos.toUInt32
  let lowsecs := secs.toUInt32
  let nanorem := lownanos - lowsecs * billion32
  { sec := abi.long secs.toNat, nsec := abi.long nanorem.toNat }

def mach2timespec (abi : Abi) (mach : MachStatics) (machTime : UInt64) : Timespec :=
  nanos2timespec abi (mach2nanos mach machTime)

/-- Difference of two timevals in mach units. The double arithmetic is taken as exact, with
the final conversion truncating toward zero. -/
def tvdiff2mach (abi : Abi) (mach : MachStatics) (tv1 tv2 : Timeval) : Int64 :=
  let seconds : Int := match abi with
    | .ilp32 => toUnsigned 32 (toUnsigned 32 tv1.sec - toUnsigned 32 tv2.sec)
    | .lp64 => abi.long (tv1.sec - tv2.sec)
  let tvdiff := seconds * 1000000000 + int (tv1.usec - tv2.usec) * 1000
  Int64.ofInt ((tvdiff * mach.denom.toNat).tdiv mach.numer.toNat)

/-! ## Continuous time -/

def minSleepOffsetAdvance : Int := 5
def maxDriftPpm : UInt64 := 100
def badBtLen : Int := -2

structure SleepofsInfo where
  boottime : Timeval
  timeofday : Timeval
  machBefore : UInt64
  machAfter : UInt64
  machDiff : UInt64
  deriving DecidableEq, Repr

def SleepofsInfo.zero : SleepofsInfo := ⟨⟨0, 0⟩, ⟨0, 0⟩, 0, 0, 0⟩

structure SleepStatics where
  sleepOffsetValid : Bool
  sleepOffset : UInt64
  rawOffset : Int64
  firstOffset : Int64
  sleepInfoRaw : SleepofsInfo
  sleepInfo : SleepofsInfo
  deriving DecidableEq, Repr

def SleepStatics.initial : SleepStatics := ⟨false, 0, 0, 0, .zero, .zero⟩

/-- A minimum adjustment. The code takes the larger of two values, one of which is an
unsigned quotient, so it is never negative. -/
abbrev MinSleepAdj := { value : Int64 // 0 ≤ value }

inductive SleepExec
  | leave
  | markValid
  | locked (offset : Int64) (minsleepadj : MinSleepAdj) (si : SleepofsInfo)

def latchFirstOffset (firstOffset offset : Int64) : Int64 :=
  if firstOffset = 0 ∧ offset < 0 then offset else firstOffset

/-- The statics after an execution: the part of `get_sleep_offset` under the lock. -/
def SleepStatics.complete (statics : SleepStatics) : SleepExec → SleepStatics
  | .leave => statics
  | .markValid => { statics with sleepOffsetValid := true }
  | .locked offset minsleepadj si =>
      let firstOffset := latchFirstOffset statics.firstOffset offset
      let statics := { statics with rawOffset := offset, firstOffset, sleepInfoRaw := si }
      -- the signed difference is converted to unsigned for the comparison
      let statics :=
        if (offset - firstOffset).toUInt64 > statics.sleepOffset + minsleepadj.val.toUInt64 then
          { statics with sleepOffset := (offset - firstOffset).toUInt64, sleepInfo := si }
        else statics
      { statics with sleepOffsetValid := true }

/-- The outcomes of the calls `get_sleep_offset` makes. `seenMachBefore` is
`sleep_info.mach_before` as read before the lock is taken. -/
structure SleepEnv where
  abi : Abi
  mach : MachStatics
  machScale : Int
  sleepofsInfo : Int × SleepofsInfo
  seenMachBefore : UInt64
  lock : Int

theorem machUnits_nonneg (ticks : UInt64) : 0 ≤ (ticks / (1000000 / maxDriftPpm)).toInt64 := by
  rw [Int64.le_iff_toInt_le]
  have small : (ticks / (1000000 / maxDriftPpm)).toNat < 2 ^ 63 := by
    have bound := ticks.toNat_lt
    have divisor : (1000000 / maxDriftPpm).toNat = 10000 := by decide
    rw [UInt64.toNat_div, divisor]
    omega
  change (0 : Int) ≤ (ticks / (1000000 / maxDriftPpm)).toBitVec.toInt
  rw [BitVec.toInt_eq_toNat_of_lt]
  · exact Int.natCast_nonneg _
  · change 2 * (ticks / (1000000 / maxDriftPpm)).toNat < 2 ^ 64
    omega

def minSleepAdj (advance : Int64) (ticks : UInt64) : MinSleepAdj :=
  let maxdrift := (ticks / (1000000 / maxDriftPpm)).toInt64
  if larger : maxdrift > advance then ⟨maxdrift, machUnits_nonneg ticks⟩
  else ⟨advance, Int64.le_trans (machUnits_nonneg ticks) (Int64.not_lt.mp larger)⟩

def prepareSleepOffset (env : SleepEnv) : SleepExec :=
  if env.machScale ≠ 0 then .leave
  else
    let (ret, si) := env.sleepofsInfo
    if ret ≠ 0 then
      if ret = badBtLen then .markValid else .leave
    else
      let toddiff := tvdiff2mach env.abi env.mach si.timeofday si.boottime
      if toddiff < 0 then .markValid
      else
        let offset := (toddiff.toUInt64 - (si.machBefore + si.machAfter) / 2).toInt64
        let advance := tvdiff2mach env.abi env.mach ⟨minSleepOffsetAdvance, 0⟩ ⟨0, 0⟩
        let minsleepadj := minSleepAdj advance (si.machBefore - env.seenMachBefore)
        if env.lock ≠ 0 then .leave
        else .locked offset minsleepadj si

def getSleepOffset (env : SleepEnv) (statics : SleepStatics) : SleepStatics :=
  statics.complete (prepareSleepOffset env)

def machContinuousTime (statics : SleepStatics) (machTime : UInt64) : UInt64 :=
  machTime + statics.sleepOffset

end LegacySupport.Time
