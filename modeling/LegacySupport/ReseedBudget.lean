import LegacySupport.Arc4randomCore
import LegacySupport.Runs

/-!
The reseed budget of a thread's generator: `rs_count` bytes may still be handed out
before the next stir. The budget is refilled before a request is charged, and the charge
is subtracted without checking that the refill covers it.
-/

namespace LegacySupport.Arc4random

open CInt Runs

def budget : Nat := 1600000

def sinceStir (log : List Event) : Nat :=
  log.foldl (fun count event => match event with
    | .stirred => 0
    | .filled _ => count
    | .handed _ bytes => count + bytes.length) 0

def Request.size {abi : Abi} : Request abi → Nat
  | .stir _ => 0
  | .buf n _ _ => n
  | .u32 _ => 4
  | .uniform _ _ => 4

/-- What the budget promises of a request: `rs_count` stays within the refill value, and
hardly more than that has been handed out since the last stir. -/
def BudgetKept (host : Host) (st : RandState) (request : Request host.abi) : Prop :=
  (serve host st request).rsCount ≤ budget ∧
    sinceStir (serve host st request).log ≤ budget + request.size

def Budgeted (st : RandState) : Prop := sinceStir st.log + st.rsCount ≤ budget

@[simp] theorem sinceStir_stirred (log : List Event) : sinceStir (log ++ [.stirred]) = 0 := by
  simp [sinceStir]

@[simp] theorem sinceStir_filled (log : List Event) (block : Block) :
    sinceStir (log ++ [.filled block]) = sinceStir log := by
  simp [sinceStir]

@[simp] theorem sinceStir_handed (log : List Event) (position : Nat) (bytes : List UInt8) :
    sinceStir (log ++ [.handed position bytes]) = sinceStir log + bytes.length := by
  simp [sinceStir]

@[simp] theorem rsRekey_rsCount (st : RandState) (dat : Option (List UInt8)) :
    (rsRekey st dat).rsCount = st.rsCount := by
  simp only [rsRekey, rsInit]

@[simp] theorem sinceStir_rsRekey (st : RandState) (dat : Option (List UInt8)) :
    sinceStir (rsRekey st dat).log = sinceStir st.log := by
  simp [rsRekey, rsInit]

@[simp] theorem rsStir_rsCount (st : RandState) (rnd : Entropy) :
    (rsStir st rnd).rsCount = budget := rfl

@[simp] theorem sinceStir_rsStir (st : RandState) (rnd : Entropy) :
    sinceStir (rsStir st rnd).log = 0 := by
  simp [rsStir]

@[simp] theorem hand_rsCount (st : RandState) (m : Nat) :
    (st.hand m).1.rsCount = st.rsCount := rfl

theorem sinceStir_hand_le (st : RandState) (m : Nat) :
    sinceStir (st.hand m).1.log ≤ sinceStir st.log + m := by
  simp only [RandState.hand, sinceStir_handed]
  have : (st.rsBuf.slice (rsbufsz - st.rsHave) m).length ≤ m := List.length_take_le _ _
  omega

theorem rsRandomBufLoop_budget (st : RandState) (n : Nat) :
    (rsRandomBufLoop st n).1.rsCount = st.rsCount ∧
      sinceStir (rsRandomBufLoop st n).1.log ≤ sinceStir st.log + n := by
  fun_induction rsRandomBufLoop st n with
  | case1 st => exact ⟨rfl, Nat.le_add_right _ _⟩
  | case2 st n more some_left m handed rest ih =>
      have copied : sinceStir handed.1.log ≤ sinceStir st.log + m := sinceStir_hand_le st m
      have bounded : m ≤ n := Nat.min_le_left _ _
      refine ⟨ih.1, ?_⟩
      change sinceStir (rsRandomBufLoop handed.1 (n - m)).1.log ≤ _
      omega
  | case3 st n more empty ih => simpa using ih

theorem rsStirIfNeeded_log (abi : Abi) (st : RandState) (len : Nat) (rnd : Entropy) :
    (rsStirIfNeeded abi st len rnd).log =
      if st.rsCount ≤ len then (rsStir st rnd).log else st.log := by
  simp only [rsStirIfNeeded]
  split <;> rfl

theorem rsStirIfNeeded_rsCount (abi : Abi) (st : RandState) (len : Nat) (rnd : Entropy) :
    (rsStirIfNeeded abi st len rnd).rsCount =
      abi.sizeT ((if st.rsCount ≤ len then budget else st.rsCount : Nat) - len) := by
  simp only [rsStirIfNeeded]
  split <;> rfl

theorem rsStirIfNeeded_covered (abi : Abi) {st : RandState} {len : Nat} (kept : Budgeted st)
    (covered : len ≤ budget) (rnd : Entropy) :
    sinceStir (rsStirIfNeeded abi st len rnd).log +
      (rsStirIfNeeded abi st len rnd).rsCount + len ≤ budget := by
  have within : sinceStir st.log + st.rsCount ≤ 1600000 := kept
  have refill : budget = 1600000 := rfl
  rw [rsStirIfNeeded_log, rsStirIfNeeded_rsCount, refill]
  split
  · rw [sinceStir_rsStir]
    cases abi <;> simp <;> omega
  · cases abi <;> simp <;> omega

theorem rsStirIfNeeded_overdrawn {abi : Abi} {st : RandState} {len : Nat}
    (kept : st.rsCount ≤ budget) (fits : len < abi.sizeMod) (larger : budget < len)
    (rnd : Entropy) : budget < (rsStirIfNeeded abi st len rnd).rsCount := by
  have needed : st.rsCount ≤ len := by omega
  have refill : budget = 1600000 := rfl
  rw [rsStirIfNeeded_rsCount, if_pos needed]
  simp only [refill] at larger ⊢
  cases abi <;> simp at fits ⊢ <;> omega

theorem budgeted_rsRandomBuf {abi : Abi} {st : RandState} {n : Nat} (kept : Budgeted st)
    (covered : n ≤ budget) (rnd : Entropy) : Budgeted (rsRandomBuf abi st n rnd).1 := by
  have charged := rsStirIfNeeded_covered abi kept covered rnd
  have loop := rsRandomBufLoop_budget (rsStirIfNeeded abi st n rnd) n
  unfold Budgeted rsRandomBuf
  omega

theorem budgeted_rsRandomU32 (abi : Abi) {st : RandState} (kept : Budgeted st) (rnd : Entropy) :
    Budgeted (rsRandomU32 abi st rnd).1 := by
  have charged := rsStirIfNeeded_covered abi kept (show 4 ≤ budget by decide) rnd
  unfold Budgeted rsRandomU32
  simp only [hand_rsCount]
  split
  · have handed := sinceStir_hand_le (rsRekey (rsStirIfNeeded abi st 4 rnd) none) 4
    simp only [sinceStir_rsRekey, rsRekey_rsCount] at handed ⊢
    omega
  · have handed := sinceStir_hand_le (rsStirIfNeeded abi st 4 rnd) 4
    omega

theorem budgeted_uniformLoop (host : Host) (minimum : UInt32) {st : RandState}
    (kept : Budgeted st) (rnds : List Entropy) :
    Budgeted (uniformLoop host minimum st rnds).1 := by
  induction rnds generalizing st with
  | nil => exact kept
  | cons rnd rnds ih =>
      have drawn := budgeted_rsRandomU32 host.abi kept rnd
      simp only [uniformLoop]
      split
      · exact drawn
      · exact ih drawn

theorem budgeted_serve (host : Host) (st : RandState) (request : Request host.abi)
    (kept : Budgeted st) (covered : request.size ≤ budget) :
    Budgeted (serve host st request) := by
  cases request with
  | stir rnd => simp [Budgeted, serve]
  | buf n fits rnd => exact budgeted_rsRandomBuf kept covered rnd
  | u32 rnd => exact budgeted_rsRandomU32 host.abi kept rnd
  | uniform upperBound rnds =>
      simp only [serve, arc4randomUniform]
      split
      · exact kept
      · exact budgeted_uniformLoop host _ kept rnds

theorem budgetKept_iff (host : Host) (st : RandState) (request : Request host.abi)
    (kept : Budgeted st) : BudgetKept host st request ↔ request.size ≤ budget := by
  constructor
  · intro promise
    by_contra larger
    cases request with
    | buf n fits rnd =>
        have within : st.rsCount ≤ budget := Nat.le_trans (Nat.le_add_left _ _) kept
        have wrapped := rsStirIfNeeded_overdrawn within fits (Nat.lt_of_not_le larger) rnd
        have loop := rsRandomBufLoop_budget (rsStirIfNeeded host.abi st n rnd) n
        have promised : (rsRandomBuf host.abi st n rnd).1.rsCount ≤ budget := promise.1
        rw [rsRandomBuf, loop.1] at promised
        omega
    | stir rnd => simp [Request.size] at larger
    | u32 rnd => simp [Request.size, budget] at larger
    | uniform upperBound rnds => simp [Request.size, budget] at larger
  · intro covered
    have after : sinceStir (serve host st request).log + (serve host st request).rsCount ≤ budget :=
      budgeted_serve host st request kept covered
    exact ⟨by omega, by omega⟩

theorem budgeted_zero : Budgeted RandState.zero := by
  simp [Budgeted, RandState.zero, sinceStir]

/-- Runs keep the budget exactly when no request is larger than a refill. -/
theorem reseedBudget_kept_iff (host : Host) (requests : List (Request host.abi)) :
    Throughout (serve host) (BudgetKept host) RandState.zero requests ↔
      ∀ request ∈ requests, request.size ≤ budget := by
  rw [throughout_iff (budgeted_serve host) (budgetKept_iff host) budgeted_zero requests]
  exact throughout_inputs (fun request : Request host.abi => request.size ≤ budget) _ _

def littleEndianHost : Host := ⟨.lp64, fun bytes => u8to32Little bytes 0⟩

theorem reseedBudget_overdrawn :
    ¬ ∀ (host : Host) (requests : List (Request host.abi)),
      Throughout (serve host) (BudgetKept host) RandState.zero requests := by
  intro always
  have run := always littleEndianHost [.buf 1600001 (by decide) (Vector.replicate 40 0)]
  exact absurd ((budgetKept_iff _ _ _ budgeted_zero).mp run.1) (by decide)

end LegacySupport.Arc4random
