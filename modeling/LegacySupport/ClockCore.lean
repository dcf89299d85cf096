import LegacySupport.TimeCore

/-!
`clock_gettime_nsec_np` and `clock_gettime` of `time.c`, each as a function of one set
of readings of the underlying sources.
-/

namespace LegacySupport.Time

open CInt

inductive ClockId
  | realtime
  | monotonicRaw
  | monotonicRawApprox
  | monotonic
  | uptimeRaw
  | uptimeRawApprox
  | processCputimeId
  | threadCputimeId
  | unsupported
  deriving DecidableEq, Repr

structure Build where
  abi : Abi
  hiresThreadTime : Bool
  deriving DecidableEq, Repr

structure Readings where
  timebase : Option (UInt32 × UInt32)
  gettimeofday : Int × Timeval
  getrusage : Int × Timeval × Timeval
  threadInfo : Int × Timeval × Timeval
  threadSelfusage : UInt64
  machAbsoluteTime : UInt64
  machApproximateTime : UInt64
  sleep : SleepStatics

def machContinuousApproximateTime (statics : SleepStatics) (machTime : UInt64) : UInt64 :=
  machTime + statics.sleepOffset

def timeradd (abi : Abi) (tv1 tv2 : Timeval) : Timeval :=
  let sec := abi.long (tv1.sec + tv2.sec)
  let usec := int (tv1.usec + tv2.usec)
  if usec ≥ 1000000 then { sec := abi.long (sec + 1), usec := int (usec - 1000000) }
  else { sec, usec }

def timevalToTimespec (tv : Timeval) : Timespec :=
  { sec := tv.sec, nsec := int (tv.usec * 1000) }

/-- `sec * BILLION64 + usec * 1000`, the seconds converted to 64 bits unsigned and the
microseconds scaled as an `int`. -/
def nanosOf (sec usec : Int) : UInt64 :=
  UInt64.ofInt sec * billion64 + UInt64.ofInt (int (usec * 1000))

def threadNanos (userTime systemTime : Timeval) : UInt64 :=
  let nanos := nanosOf (int (userTime.sec + systemTime.sec)) (int (userTime.usec + systemTime.usec))
  if nanos ≠ 0 then nanos else 1

/-- `tv_nsec >= BILLION32`: a 32-bit `tv_nsec` is converted to unsigned. -/
def reachesBillion (abi : Abi) (nsec : Int) : Bool :=
  match abi with
  | .ilp32 => toUnsigned 32 nsec ≥ billion32.toNat
  | .lp64 => nsec ≥ billion32.toNat

def carryNanos (abi : Abi) (ts : Timespec) : Timespec :=
  if reachesBillion abi ts.nsec then
    { sec := abi.long (ts.sec + 1), nsec := abi.long (ts.nsec - billion32.toNat) }
  else ts

def threadTimespec (abi : Abi) (userTime systemTime : Timeval) : Timespec :=
  let ts := carryNanos abi {
    sec := int (userTime.sec + systemTime.sec)
    nsec := int (int (userTime.usec + systemTime.usec) * 1000) }
  if ts.sec = 0 ∧ ts.nsec = 0 then { ts with nsec := 1 } else ts

def getThreadUsageNs (build : Build) (mach : MachStatics) (readings : Readings) : UInt64 :=
  if build.hiresThreadTime then mach2nanos mach readings.threadSelfusage
  else
    let (ret, userTime, systemTime) := readings.threadInfo
    if ret ≠ 0 then 0 else threadNanos userTime systemTime

def getThreadUsageTs (build : Build) (mach : MachStatics) (readings : Readings) :
    Int × Option Timespec :=
  if build.hiresThreadTime then
    let machTime := readings.threadSelfusage
    (if machTime ≠ 0 then 0 else -1, some (mach2timespec build.abi mach machTime))
  else
    let (ret, userTime, systemTime) := readings.threadInfo
    if ret ≠ 0 then (-1, none) else (0, some (threadTimespec build.abi userTime systemTime))

def earlySetup (build : Build) (readings : Readings) (mach : MachStatics) : Int × MachStatics :=
  if mach.mult = 0 then setupMachMult build.abi readings.timebase mach else (0, mach)

structure Returned (α : Type) where
  value : α
  errno : Option Int := none

def clockGettimeNsecNp (build : Build) (readings : Readings) (mach : MachStatics) :
    ClockId → Returned UInt64
  | .realtime =>
      let (ret, tod) := readings.gettimeofday
      if ret ≠ 0 then { value := 0 } else { value := nanosOf tod.sec tod.usec }
  | .processCputimeId =>
      let (ret, utime, stime) := readings.getrusage
      if ret ≠ 0 then { value := 0 }
      else { value := nanosOf (build.abi.long (utime.sec + stime.sec)) (int (utime.usec + stime.usec)) }
  | .threadCputimeId =>
      { value := getThreadUsageNs build (earlySetup build readings mach).2 readings }
  | .monotonic =>
      let mach := (earlySetup build readings mach).2
      let machTime := machContinuousTime readings.sleep readings.machAbsoluteTime
      { value := mach2nanos mach machTime / 1000 * 1000 }
  | .monotonicRaw =>
      let machTime := machContinuousTime readings.sleep readings.machAbsoluteTime
      { value := mach2nanos (earlySetup build readings mach).2 machTime }
  | .monotonicRawApprox =>
      let machTime := machContinuousApproximateTime readings.sleep readings.machApproximateTime
      { value := mach2nanos (earlySetup build readings mach).2 machTime }
  | .uptimeRaw =>
      { value := mach2nanos (earlySetup build readings mach).2 readings.machAbsoluteTime }
  | .uptimeRawApprox =>
      { value := mach2nanos (earlySetup build readings mach).2 readings.machApproximateTime }
  | .unsupported => { value := 0, errno := some errnoEINVAL }

/-- The return value and the timespec stored, `none` where the code stores nothing. -/
def clockGettime (build : Build) (readings : Readings) (mach : MachStatics) :
    ClockId → Returned (Int × Option Timespec)
  | .realtime =>
      let (ret, tod) := readings.gettimeofday
      { value := (ret, some { sec := tod.sec, nsec := int (tod.usec * 1000) }) }
  | .processCputimeId =>
      let (ret, utime, stime) := readings.getrusage
      { value := (ret, some (timevalToTimespec (timeradd build.abi utime stime))) }
  | .threadCputimeId =>
      { value := getThreadUsageTs build (earlySetup build readings mach).2 readings }
  | .monotonic =>
      let (mserr, mach) := earlySetup build readings mach
      let machTime := machContinuousTime readings.sleep readings.machAbsoluteTime
      let nanos := mach2nanos mach machTime / 1000 * 1000
      { value := (mserr, some (nanos2timespec build.abi nanos)) }
  | .monotonicRaw =>
      let (mserr, mach) := earlySetup build readings mach
      let machTime := machContinuousTime readings.sleep readings.machAbsoluteTime
      { value := (mserr, some (mach2timespec build.abi mach machTime)) }
  | .monotonicRawApprox =>
      let (mserr, mach) := earlySetup build readings mach
      let machTime := machContinuousApproximateTime readings.sleep readings.machApproximateTime
      { value := (mserr, some (mach2timespec build.abi mach machTime)) }
  | .uptimeRaw =>
      let (mserr, mach) := earlySetup build readings mach
      { value := (mserr, some (mach2timespec build.abi mach readings.machAbsoluteTime)) }
  | .uptimeRawApprox =>
      let (mserr, mach) := earlySetup build readings mach
      { value := (mserr, some (mach2timespec build.abi mach readings.machApproximateTime)) }
  | .unsupported => { value := (-1, none), errno := some errnoEINVAL }

def resMicros : Timespec := { sec := 0, nsec := 1000 }

/-- The clocks that report the mach resolution. The others are based on a timeval, or forced
to microseconds as `CLOCK_MONOTONIC` is. -/
def ClockId.hasMachResolution (build : Build) : ClockId → Bool
  | .monotonicRaw | .monotonicRawApprox | .uptimeRaw | .uptimeRawApprox => true
  | .threadCputimeId => build.hiresThreadTime
  | .realtime | .processCputimeId | .monotonic | .unsupported => false

def clockGetres (build : Build) (timebase : Option (UInt32 × UInt32)) (mach : MachStatics)
    (clk : ClockId) : Returned (Int × Option Timespec) :=
  let (mserr, mach) :=
    if mach.resNsec = 0 then setupMachMult build.abi timebase mach else (0, mach)
  if clk = .unsupported then { value := (-1, none), errno := some errnoEINVAL }
  else if clk.hasMachResolution build then
    { value := (mserr, some { sec := 0, nsec := mach.resNsec }) }
  else { value := (0, some resMicros) }

end LegacySupport.Time
