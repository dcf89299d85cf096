import LegacySupport.TimeCore
import LegacySupport.Runs

/-!
Runs of `get_sleep_offset`. Executions complete one at a time under the lock, in any
order; the offset they leave behind is read as a signed quantity.
-/

namespace LegacySupport.Time

open Runs

def signed (value : UInt64) : Int := value.toInt64.toInt

def SleepExec.minAdjustment : SleepExec → Int
  | .locked _ minsleepadj _ => minsleepadj.val.toInt
  | _ => 0

structure SleepAdvances (before after : SleepStatics) (minAdjustment : Int) : Prop where
  nonneg : 0 ≤ signed after.sleepOffset
  grows : signed before.sleepOffset ≤ signed after.sleepOffset
  hysteresis : after.sleepOffset ≠ before.sleepOffset →
    signed before.sleepOffset + minAdjustment < signed after.sleepOffset
  continuous : ∀ earlier later : UInt64, earlier ≤ later →
    later.toNat + after.sleepOffset.toNat < 2 ^ 64 →
      machContinuousTime before earlier ≤ machContinuousTime after later ∧
        later ≤ machContinuousTime after later

def StepAdvances (statics : SleepStatics) (exec : SleepExec) : Prop :=
  SleepAdvances statics (statics.complete exec) exec.minAdjustment

/-- The sample is not below the retained first offset and its distance from it is a signed
64-bit value, or that distance, taken modulo `2 ^ 64`, is too small for an update. -/
def AboveFirstOffset (statics : SleepStatics) : SleepExec → Prop
  | .locked offset minsleepadj _ =>
      let gap := offset.toInt - (latchFirstOffset statics.firstOffset offset).toInt
      (0 ≤ gap ∧ gap < 2 ^ 63) ∨
        gap % 2 ^ 64 ≤ statics.sleepOffset.toNat + minsleepadj.val.toInt
  | _ => True

instance (statics : SleepStatics) : ∀ exec, Decidable (AboveFirstOffset statics exec)
  | .locked _ _ _ => inferInstanceAs (Decidable (_ ∨ _))
  | .leave => inferInstanceAs (Decidable True)
  | .markValid => inferInstanceAs (Decidable True)

def OffsetNonneg (statics : SleepStatics) : Prop := statics.sleepOffset.toNat < 2 ^ 63

/-- The statics of every run that stays above its first offset, which is retained only from
a negative sample. -/
structure SleepInvariant (statics : SleepStatics) : Prop where
  offsetNonneg : OffsetNonneg statics
  firstNonpos : statics.firstOffset.toInt ≤ 0

theorem signed_eq (value : UInt64) :
    signed value = if value.toNat < 2 ^ 63 then (value.toNat : Int) else value.toNat - 2 ^ 64 := by
  change value.toBitVec.toInt = _
  have width : value.toBitVec.toNat = value.toNat := rfl
  rw [BitVec.toInt_eq_toNat_cond, width]
  split <;> split <;> omega

theorem signed_of_lt {value : UInt64} (small : value.toNat < 2 ^ 63) :
    signed value = value.toNat := by
  rw [signed_eq, if_pos small]

theorem signed_nonneg_iff (value : UInt64) : 0 ≤ signed value ↔ value.toNat < 2 ^ 63 := by
  have bound := value.toNat_lt
  rw [signed_eq]
  split <;> omega

theorem toNat_of_nonneg {value : Int64} (nonneg : 0 ≤ value) :
    (value.toUInt64.toNat : Int) = value.toInt ∧ value.toUInt64.toNat < 2 ^ 63 := by
  have lower : 0 ≤ value.toInt := by simpa [Int64.le_iff_toInt_le] using nonneg
  have upper := value.toInt_lt
  rw [Int64.toNat_toUInt64_eq]
  omega

theorem toNat_gap (offset firstOffset : Int64) :
    ((offset - firstOffset).toUInt64.toNat : Int) = (offset.toInt - firstOffset.toInt) % 2 ^ 64 := by
  rw [Int64.toNat_toUInt64_eq, Int64.toInt_sub]
  have : ((2 : Int) ^ 64) = ((2 ^ 64 : Nat) : Int) := by norm_cast
  rw [this, Int.bmod_emod]
  omega

theorem updates_iff {statics : SleepStatics} (nonneg : OffsetNonneg statics)
    (offset firstOffset : Int64) (minsleepadj : MinSleepAdj) :
    (offset - firstOffset).toUInt64 > statics.sleepOffset + minsleepadj.val.toUInt64 ↔
      (statics.sleepOffset.toNat + minsleepadj.val.toInt) <
        (offset.toInt - firstOffset.toInt) % 2 ^ 64 := by
  obtain ⟨adjustment, small⟩ := toNat_of_nonneg minsleepadj.property
  have gap := toNat_gap offset firstOffset
  have offsetSmall : statics.sleepOffset.toNat < 2 ^ 63 := nonneg
  rw [gt_iff_lt, UInt64.lt_iff_toNat_lt, UInt64.toNat_add]
  omega

theorem complete_locked_offset (statics : SleepStatics) (offset : Int64)
    (minsleepadj : MinSleepAdj) (si : SleepofsInfo) :
    (statics.complete (.locked offset minsleepadj si)).sleepOffset =
      if (offset - latchFirstOffset statics.firstOffset offset).toUInt64 >
          statics.sleepOffset + minsleepadj.val.toUInt64 then
        (offset - latchFirstOffset statics.firstOffset offset).toUInt64
      else statics.sleepOffset := by
  simp only [SleepStatics.complete]
  split <;> rfl

theorem machContinuousTime_mono {before after : SleepStatics}
    (grows : before.sleepOffset.toNat ≤ after.sleepOffset.toNat) (earlier later : UInt64)
    (ordered : earlier ≤ later) (room : later.toNat + after.sleepOffset.toNat < 2 ^ 64) :
    machContinuousTime before earlier ≤ machContinuousTime after later ∧
      later ≤ machContinuousTime after later := by
  rw [UInt64.le_iff_toNat_le] at ordered
  simp only [machContinuousTime, UInt64.le_iff_toNat_le, UInt64.toNat_add]
  constructor <;> omega

theorem sleepAdvances_unchanged {before after : SleepStatics} (nonneg : OffsetNonneg before)
    (same : after.sleepOffset = before.sleepOffset) (minAdjustment : Int) :
    SleepAdvances before after minAdjustment where
  nonneg := by rw [same]; exact (signed_nonneg_iff _).mpr nonneg
  grows := by rw [same]
  hysteresis := fun changed => absurd same changed
  continuous := machContinuousTime_mono (by rw [same])

theorem sleepAdvances_increase {before after : SleepStatics} (nonneg : OffsetNonneg before)
    (afterNonneg : OffsetNonneg after) {minAdjustment : Int} (adjustment : 0 ≤ minAdjustment)
    (increase : before.sleepOffset.toNat + minAdjustment < after.sleepOffset.toNat) :
    SleepAdvances before after minAdjustment := by
  have beforeSigned := signed_of_lt nonneg
  have afterSigned := signed_of_lt afterNonneg
  exact {
    nonneg := by omega
    grows := by omega
    hysteresis := fun _ => by omega
    continuous := machContinuousTime_mono (by omega) }

theorem latchFirstOffset_nonpos {firstOffset : Int64} (nonpos : firstOffset.toInt ≤ 0)
    (offset : Int64) : (latchFirstOffset firstOffset offset).toInt ≤ 0 := by
  unfold latchFirstOffset
  split
  next latched =>
    have negative := Int64.lt_iff_toInt_lt.mp latched.2
    simp only [Int64.toInt_zero] at negative
    omega
  next => exact nonpos

theorem complete_firstOffset_nonpos {statics : SleepStatics}
    (nonpos : statics.firstOffset.toInt ≤ 0) (exec : SleepExec) :
    (statics.complete exec).firstOffset.toInt ≤ 0 := by
  cases exec with
  | leave => exact nonpos
  | markValid => exact nonpos
  | locked offset minsleepadj si =>
      simp only [SleepStatics.complete]
      split <;> exact latchFirstOffset_nonpos nonpos offset

theorem stepAdvances_iff (statics : SleepStatics) (exec : SleepExec)
    (kept : SleepInvariant statics) :
    StepAdvances statics exec ↔ AboveFirstOffset statics exec := by
  have nonneg := kept.offsetNonneg
  cases exec with
  | leave => exact iff_of_true (sleepAdvances_unchanged nonneg rfl _) True.intro
  | markValid =>
      have same : (statics.complete .markValid).sleepOffset = statics.sleepOffset := rfl
      exact iff_of_true (sleepAdvances_unchanged nonneg same _) True.intro
  | locked offset minsleepadj si =>
      have result := complete_locked_offset statics offset minsleepadj si
      have distance := toNat_gap offset (latchFirstOffset statics.firstOffset offset)
      have firstNonpos := latchFirstOffset_nonpos kept.firstNonpos offset
      have adjustment : 0 ≤ minsleepadj.val.toInt := by
        simpa [Int64.le_iff_toInt_le] using minsleepadj.property
      simp only [updates_iff nonneg] at result
      simp only [AboveFirstOffset]
      split at result
      next updated =>
        constructor
        · intro advances
          -- the new offset is the distance modulo 2 ^ 64, and its sign bit is clear
          have small := (signed_nonneg_iff _).mp advances.nonneg
          rw [result] at small
          have lower := offset.le_toInt
          have upper := offset.toInt_lt
          have firstLower := (latchFirstOffset statics.firstOffset offset).le_toInt
          omega
        · rintro (⟨gapNonneg, gapSmall⟩ | skipped)
          · apply sleepAdvances_increase nonneg
            · change (statics.complete (.locked offset minsleepadj si)).sleepOffset.toNat < 2 ^ 63
              rw [result]
              omega
            · exact adjustment
            · rw [result]
              change (statics.sleepOffset.toNat + minsleepadj.val.toInt : Int) < _
              omega
          · omega
      next kept =>
        refine iff_of_true (sleepAdvances_unchanged nonneg result _) (Or.inr ?_)
        omega

theorem sleepInvariant_complete (statics : SleepStatics) (exec : SleepExec)
    (kept : SleepInvariant statics) (above : AboveFirstOffset statics exec) :
    SleepInvariant (statics.complete exec) where
  offsetNonneg := (signed_nonneg_iff _).mp ((stepAdvances_iff statics exec kept).mpr above).nonneg
  firstNonpos := complete_firstOffset_nonpos kept.firstNonpos exec

theorem sleepInvariant_initial : SleepInvariant SleepStatics.initial where
  offsetNonneg := by simp [OffsetNonneg, SleepStatics.initial]
  firstNonpos := by decide

/-- Runs keep the hysteresis exactly when no sample falls below the retained first offset. -/
theorem sleepOffset_advances_iff (execs : List SleepExec) :
    Throughout SleepStatics.complete StepAdvances SleepStatics.initial execs ↔
      Throughout SleepStatics.complete AboveFirstOffset SleepStatics.initial execs :=
  throughout_iff sleepInvariant_complete stepAdvances_iff sleepInvariant_initial execs

theorem getSleepOffset_advances_iff (envs : List SleepEnv) :
    Throughout (fun statics env => getSleepOffset env statics)
        (fun statics env => StepAdvances statics (prepareSleepOffset env))
        SleepStatics.initial envs ↔
      Throughout (fun statics env => getSleepOffset env statics)
        (fun statics env => AboveFirstOffset statics (prepareSleepOffset env))
        SleepStatics.initial envs := by
  apply throughout_iff _ _ sleepInvariant_initial
  · intro statics env kept above
    exact sleepInvariant_complete statics (prepareSleepOffset env) kept above
  · intro statics env kept
    exact stepAdvances_iff statics (prepareSleepOffset env) kept

theorem sleepOffset_steps_back :
    ¬ ∀ execs : List SleepExec,
      Throughout SleepStatics.complete StepAdvances SleepStatics.initial execs := by
  intro always
  have run := always [.locked (-3000000000) ⟨5000000000, by decide⟩ .zero,
    .locked (-4000000000) ⟨5000000000, by decide⟩ .zero]
  have nonneg := run.2.1.nonneg
  revert nonneg
  decide

end LegacySupport.Time
