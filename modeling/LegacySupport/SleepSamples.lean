import LegacySupport.TimeCore

/-!
The samples behind the sleep offset. `get_sleepofs_info` takes five pairs of time of day and mach
time between two readings of the boot time, and starts over while the boot time changes.
-/

namespace LegacySupport.Time

open CInt

inductive Reading
  | boottime (ret : Int) (bt : Timeval) (length : Nat)
  | timeofday (tv : Option Timeval)
  | mach (time : UInt64)
  deriving DecidableEq

def sizeofTimevalOf : Abi → Nat
  | .ilp32 => 8
  | .lp64 => 16

/-- A function takes what it reads off the script, and has no result if that is something else. -/
def getBoottime (abi : Abi) : List Reading → Option (Int × Timeval × List Reading)
  | .boottime ret bt length :: rest =>
      if ret ≠ 0 then some (ret, bt, rest)
      else if length ≠ sizeofTimevalOf abi then some (badBtLen, bt, rest)
      else some (0, bt, rest)
  | _ => none

def awaitChange (si : SleepofsInfo) (tv1 : Timeval) : UInt64 → List Reading →
    Option (Int × SleepofsInfo × List Reading)
  | mt1, .timeofday (some tv2) :: .mach mt2 :: rest =>
      if tv2.usec = tv1.usec then awaitChange si tv1 mt2 rest
      else
        some (0, { si with
          timeofday := tv2
          machBefore := mt1
          machAfter := mt2
          machDiff := (mt2 - mt1 + 1 + 2) / 2 }, rest)
  | _, .timeofday none :: rest => some (-1, si, rest)
  | _, _ => none

def getTodmach (si : SleepofsInfo) : List Reading → Option (Int × SleepofsInfo × List Reading)
  | .timeofday (some tv1) :: .mach mt2 :: rest => awaitChange si tv1 mt2 rest
  | .timeofday none :: rest => some (-1, si, rest)
  | _ => none

def bestSample : Nat → SleepofsInfo → SleepofsInfo → List Reading →
    Option (Int × SleepofsInfo × SleepofsInfo × List Reading)
  | 0, si, si2, readings => some (0, si, si2, readings)
  | tries + 1, si, si2, readings =>
      match getTodmach si2 readings with
      | none => none
      | some (ret, si2, rest) =>
          if ret ≠ 0 then some (-1, si, si2, rest)
          else bestSample tries (if si2.machDiff < si.machDiff then si2 else si) si2 rest

def collectSamples (abi : Abi) : Nat → SleepofsInfo → SleepofsInfo → List Reading →
    Option (Int × SleepofsInfo × List Reading)
  | 0, _, _, _ => none
  | turns + 1, si, si2, readings =>
      match getTodmach si readings with
      | none => none
      | some (ret, si, rest) =>
          if ret ≠ 0 then some (-1, si, rest)
          else
            match bestSample (5 - 1) si si2 rest with
            | none => none
            | some (ret, si, si2, rest) =>
                if ret ≠ 0 then some (-1, si, rest)
                else
                  match getBoottime abi rest with
                  | none => none
                  | some (ret, boottime, rest) =>
                      if ret ≠ 0 then some (ret, si, rest)
                      else
                        let si2 := { si2 with boottime := boottime }
                        if si2.boottime.sec = si.boottime.sec ∧
                            si2.boottime.usec = si.boottime.usec then some (0, si, rest)
                        else collectSamples abi turns si2 si2 rest

/-- The second structure is not set up but for its boot time. -/
def getSleepofsInfo (abi : Abi) (turns : Nat) (si si2 : SleepofsInfo) (readings : List Reading) :
    Option (Int × SleepofsInfo × List Reading) :=
  match getBoottime abi readings with
  | none => none
  | some (ret, boottime, rest) =>
      if ret ≠ 0 then some (ret, { si with boottime := boottime }, rest)
      else
        collectSamples abi turns { si with boottime := boottime } { si2 with boottime := boottime }
          rest

/-! ## Samples -/

/-- The readings of a call of `get_todmach` that succeeds: the last time of day, which is the
first to differ, stands between the two mach times. -/
structure Sample where
  first : Timeval
  unchanged : List Reading
  machBefore : UInt64
  timeofday : Timeval
  machAfter : UInt64
  same : ∀ tv, .timeofday (some tv) ∈ unchanged → tv.usec = first.usec
  differs : timeofday.usec ≠ first.usec

def Sample.readings (sample : Sample) : List Reading :=
  .timeofday (some sample.first) :: sample.unchanged ++
    [.mach sample.machBefore, .timeofday (some sample.timeofday), .mach sample.machAfter]

def Sample.machDiff (sample : Sample) : UInt64 :=
  (sample.machAfter - sample.machBefore + 1 + 2) / 2

def Sample.info (sample : Sample) (boottime : Timeval) : SleepofsInfo :=
  ⟨boottime, sample.timeofday, sample.machBefore, sample.machAfter, sample.machDiff⟩

theorem getBoottime_reading {abi : Abi} {readings rest : List Reading} {bt : Timeval}
    (read : getBoottime abi readings = some (0, bt, rest)) :
    readings = .boottime 0 bt (sizeofTimevalOf abi) :: rest := by
  unfold getBoottime at read
  split at read
  next ret bt' length rest' =>
    by_cases failed : ret ≠ 0
    · rw [if_pos failed] at read
      have zero : ret = 0 := congrArg Prod.fst (Option.some.inj read)
      exact absurd zero failed
    · rw [if_neg failed] at read
      by_cases short : length ≠ sizeofTimevalOf abi
      · rw [if_pos short] at read
        have zero : badBtLen = 0 := congrArg Prod.fst (Option.some.inj read)
        exact absurd zero (by decide)
      · rw [if_neg short] at read
        cases read
        rw [not_not.mp failed, not_not.mp short]
  next => cases read

theorem awaitChange_sample (si : SleepofsInfo) (first : Timeval) (mt1 : UInt64)
    (readings : List Reading) : ∀ unchanged after rest,
    (∀ tv, .timeofday (some tv) ∈ unchanged → tv.usec = first.usec) →
      awaitChange si first mt1 readings = some (0, after, rest) →
        ∃ sample : Sample, after = sample.info si.boottime ∧
          .timeofday (some first) :: unchanged ++ .mach mt1 :: readings =
            sample.readings ++ rest := by
  fun_induction awaitChange si first mt1 readings with
  | case1 mt1 tv2 mt2 readings equal ih =>
      intro unchanged after rest same read
      have longer : ∀ tv, .timeofday (some tv) ∈
          unchanged ++ [.mach mt1, .timeofday (some tv2)] → tv.usec = first.usec := by
        intro tv member
        rcases List.mem_append.mp member with before | last
        · exact same tv before
        · simp only [List.mem_cons, reduceCtorEq, List.not_mem_nil, or_false, false_or,
            Reading.timeofday.injEq, Option.some.injEq] at last
          rw [last]
          exact equal
      obtain ⟨sample, info, taken⟩ := ih _ after rest longer read
      refine ⟨sample, info, ?_⟩
      rw [← taken]
      simp
  | case2 mt1 tv2 mt2 readings differs =>
      intro unchanged after rest same read
      cases read
      exact ⟨⟨first, unchanged, mt1, tv2, mt2, same, differs⟩, rfl, by simp [Sample.readings]⟩
  | case3 =>
      intro unchanged after rest same read
      cases read
  | case4 =>
      intro unchanged after rest same read
      cases read

theorem getTodmach_sample {si after : SleepofsInfo} {readings rest : List Reading}
    (read : getTodmach si readings = some (0, after, rest)) :
    ∃ sample : Sample, after = sample.info si.boottime ∧ readings = sample.readings ++ rest := by
  unfold getTodmach at read
  split at read
  next tv1 mt2 later =>
    exact awaitChange_sample si tv1 mt2 later [] after rest
      (fun tv member => absurd member List.not_mem_nil) read
  next => cases read
  next => cases read

def Tightest (info : SleepofsInfo) (boottime : Timeval) (samples : List Sample) : Prop :=
  (∃ sample ∈ samples, info = sample.info boottime) ∧
    ∀ sample ∈ samples, info.machDiff ≤ sample.machDiff

theorem tightest_add {info : SleepofsInfo} {boottime : Timeval} {samples : List Sample}
    (tightest : Tightest info boottime samples) (sample : Sample) :
    Tightest (if (sample.info boottime).machDiff < info.machDiff then sample.info boottime
      else info) boottime (samples ++ [sample]) := by
  obtain ⟨⟨chosen, member, same⟩, least⟩ := tightest
  by_cases tighter : (sample.info boottime).machDiff < info.machDiff
  · rw [if_pos tighter]
    refine ⟨⟨sample, by simp, rfl⟩, fun other inside => ?_⟩
    rcases List.mem_append.mp inside with before | last
    · exact UInt64.le_of_lt (UInt64.lt_of_lt_of_le tighter (least other before))
    · rw [List.mem_singleton.mp last]
      exact UInt64.le_refl _
  · rw [if_neg tighter]
    refine ⟨⟨chosen, by simp [member], same⟩, fun other inside => ?_⟩
    rcases List.mem_append.mp inside with before | last
    · exact least other before
    · rw [List.mem_singleton.mp last]
      exact UInt64.not_lt.mp tighter

theorem bestSample_tightest (boottime : Timeval) : ∀ tries si si2 readings samples best last rest,
    Tightest si boottime samples → si2.boottime = boottime →
      bestSample tries si si2 readings = some (0, best, last, rest) →
        ∃ more : List Sample, more.length = tries ∧
          readings = more.flatMap Sample.readings ++ rest ∧
          Tightest best boottime (samples ++ more) := by
  intro tries
  induction tries with
  | zero =>
      intro si si2 readings samples best last rest tightest boot read
      cases read
      exact ⟨[], rfl, rfl, by rw [List.append_nil]; exact tightest⟩
  | succ tries ih =>
      intro si si2 readings samples best last rest tightest boot read
      rw [bestSample] at read
      split at read
      next => cases read
      next ret after later sampled =>
        by_cases failed : ret ≠ 0
        · rw [if_pos failed] at read
          cases read
        · rw [if_neg failed] at read
          rw [not_not.mp failed] at sampled
          obtain ⟨sample, info, taken⟩ := getTodmach_sample sampled
          rw [boot] at info
          rw [info] at read
          obtain ⟨more, count, others, least⟩ := ih _ _ later (samples ++ [sample]) best last rest
            (tightest_add tightest sample) rfl read
          refine ⟨sample :: more, by rw [List.length_cons, count], ?_, ?_⟩
          · rw [taken, others, List.flatMap_cons, List.append_assoc]
          · rw [List.append_assoc] at least
            exact least

structure Grouped (abi : Abi) (readings rest : List Reading) (info : SleepofsInfo)
    (earlier : List Reading) (samples : List Sample) : Prop where
  count : samples.length = 5
  script : readings =
    earlier ++ .boottime 0 info.boottime (sizeofTimevalOf abi) ::
      (samples.flatMap Sample.readings ++
        .boottime 0 info.boottime (sizeofTimevalOf abi) :: rest)
  tightest : Tightest info info.boottime samples

theorem timeval_eq {first second : Timeval} (sec : first.sec = second.sec)
    (usec : first.usec = second.usec) : first = second := by
  cases first
  cases second
  simp only [Timeval.mk.injEq]
  exact ⟨sec, usec⟩

theorem collectSamples_cases {abi : Abi} {turns : Nat} {si si2 info : SleepofsInfo}
    {readings rest : List Reading} (boot : si.boottime = si2.boottime)
    (read : collectSamples abi (turns + 1) si si2 readings = some (0, info, rest)) :
    ∃ samples best next bt later, samples.length = 5 ∧
      readings = samples.flatMap Sample.readings ++
        .boottime 0 bt (sizeofTimevalOf abi) :: later ∧
      Tightest best si.boottime samples ∧ next.boottime = bt ∧
      ((bt = si.boottime ∧ info = best ∧ later = rest) ∨
        collectSamples abi turns next next later = some (0, info, rest)) := by
  rw [collectSamples] at read
  split at read
  next => cases read
  next ret first behindFirst sampled =>
    by_cases failed : ret ≠ 0
    · rw [if_pos failed] at read
      cases read
    rw [if_neg failed] at read
    rw [not_not.mp failed] at sampled
    obtain ⟨sample, firstInfo, taken⟩ := getTodmach_sample sampled
    have alone : Tightest first si.boottime [sample] := by
      refine ⟨⟨sample, List.mem_singleton_self sample, firstInfo⟩, fun other member => ?_⟩
      rw [List.mem_singleton.mp member, firstInfo]
      exact UInt64.le_refl _
    split at read
    next => cases read
    next retBest best last behindGroup grouped =>
      by_cases failedBest : retBest ≠ 0
      · rw [if_pos failedBest] at read
        cases read
      rw [if_neg failedBest] at read
      rw [not_not.mp failedBest] at grouped
      obtain ⟨more, count, others, tightest⟩ := bestSample_tightest si.boottime (5 - 1) first si2
        behindFirst [sample] best last behindGroup alone boot.symm grouped
      split at read
      next => cases read
      next retBoot bt later booted =>
        by_cases failedBoot : retBoot ≠ 0
        · rw [if_pos failedBoot] at read
          exact absurd (congrArg Prod.fst (Option.some.inj read)) failedBoot
        rw [if_neg failedBoot] at read
        rw [not_not.mp failedBoot] at booted
        have bootReading := getBoottime_reading booted
        refine ⟨sample :: more, best, { last with boottime := bt }, bt, later, ?_, ?_, tightest,
          rfl, ?_⟩
        · rw [List.length_cons, count]
        · rw [taken, others, bootReading, List.flatMap_cons, List.append_assoc]
        · have kept : best.boottime = si.boottime := by
            obtain ⟨⟨chosen, member, same⟩, least⟩ := tightest
            rw [same]
            rfl
          dsimp only at read
          split at read
          next equal =>
            left
            cases read
            refine ⟨?_, rfl, rfl⟩
            rw [← kept]
            exact timeval_eq equal.1 equal.2
          next changed => exact Or.inr read

theorem collectSamples_grouped (abi : Abi) : ∀ turns si si2 readings info rest,
    si.boottime = si2.boottime →
      collectSamples abi turns si si2 readings = some (0, info, rest) →
        ∃ earlier samples, Grouped abi
          (.boottime 0 si.boottime (sizeofTimevalOf abi) :: readings) rest info earlier
          samples := by
  intro turns
  induction turns with
  | zero =>
      intro si si2 readings info rest boot read
      cases read
  | succ turns ih =>
      intro si si2 readings info rest boot read
      obtain ⟨samples, best, next, bt, later, count, script, tightest, booted, ended | again⟩ :=
        collectSamples_cases boot read
      · obtain ⟨same, info', done⟩ := ended
        have kept : best.boottime = si.boottime := by
          obtain ⟨⟨chosen, member, found⟩, least⟩ := tightest
          rw [found]
          rfl
        refine ⟨[], samples, count, ?_, ?_⟩
        · rw [script, same, info', kept, done]
          rfl
        · rw [info', kept]
          exact tightest
      · obtain ⟨earlier, group, grouped⟩ := ih next next later info rest rfl again
        refine ⟨.boottime 0 si.boottime (sizeofTimevalOf abi) ::
          samples.flatMap Sample.readings ++ earlier, group, grouped.count, ?_, grouped.tightest⟩
        have behind := grouped.script
        rw [booted] at behind
        rw [script, behind, List.cons_append, List.cons_append, List.append_assoc]

/-- What is reported with success comes from one sample, the tightest of a group of five that
stands between two readings of the boot time reported. -/
theorem getSleepofsInfo_grouped (abi : Abi) (turns : Nat) (si si2 info : SleepofsInfo)
    (readings rest : List Reading)
    (read : getSleepofsInfo abi turns si si2 readings = some (0, info, rest)) :
    ∃ earlier samples, Grouped abi readings rest info earlier samples := by
  unfold getSleepofsInfo at read
  split at read
  next => cases read
  next ret bt later booted =>
    by_cases failed : ret ≠ 0
    · rw [if_pos failed] at read
      exact absurd (congrArg Prod.fst (Option.some.inj read)) failed
    rw [if_neg failed] at read
    rw [not_not.mp failed] at booted
    obtain ⟨earlier, samples, grouped⟩ := collectSamples_grouped abi turns
      { si with boottime := bt } { si2 with boottime := bt } later info rest rfl read
    rw [getBoottime_reading booted]
    exact ⟨earlier, samples, grouped⟩

def sampleReadings (machTime ticks : UInt64) : List Reading :=
  [.timeofday (some ⟨1000, 7⟩), .mach machTime, .timeofday (some ⟨1000, 7⟩),
    .mach (machTime + ticks), .timeofday (some ⟨1000, 8⟩), .mach (machTime + 2 * ticks)]

def changedBoottime : List Reading :=
  [.boottime 0 ⟨500, 0⟩ 16] ++ (List.replicate 5 (sampleReadings 100 10)).flatten ++
    [.boottime 0 ⟨501, 0⟩ 16] ++ sampleReadings 900 40 ++ sampleReadings 1000 30 ++
    sampleReadings 1100 20 ++ sampleReadings 1200 50 ++ sampleReadings 1300 60 ++
    [.boottime 0 ⟨501, 0⟩ 16]

theorem getSleepofsInfo_changedBoottime :
    ∃ earlier samples, Grouped .lp64 changedBoottime [] ⟨⟨501, 0⟩, ⟨1000, 8⟩, 1120, 1140, 11⟩
      earlier samples :=
  getSleepofsInfo_grouped .lp64 2 .zero .zero _ changedBoottime [] (by decide +kernel)

end LegacySupport.Time
