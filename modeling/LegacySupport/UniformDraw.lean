import LegacySupport.KeystreamLedger
import LegacySupport.Rejection

/-!
A bounded draw is free of bias: rejecting the words below the minimum leaves every value below
the bound with the same number of words, and the loop returns the first word it accepts, reduced.
-/

namespace LegacySupport.Arc4random

open CInt Rejection

def drawnWords (host : Host) : RandState → List Entropy → List UInt32
  | _, [] => []
  | st, rnd :: rnds =>
      host.wordOf (rsRandomU32 host.abi st rnd).2 ::
        drawnWords host (rsRandomU32 host.abi st rnd).1 rnds

theorem uniformMin_toNat {upperBound : UInt32} (positive : 0 < upperBound.toNat) :
    (uniformMin upperBound).toNat = 2 ^ 32 % upperBound.toNat := by
  have below := upperBound.toNat_lt
  have difference : UInt32.size - upperBound.toNat < UInt32.size := by
    change 4294967296 - upperBound.toNat < 4294967296
    omega
  rw [uniformMin, UInt32.toNat_mod, UInt32.toNat_neg, Nat.mod_eq_of_lt difference]
  exact (Nat.mod_eq_sub_mod (Nat.le_of_lt below)).symm

theorem ncard_words (holds : Nat → Prop) [DecidablePred holds] :
    {word : UInt32 | holds word.toNat}.ncard =
      ((Finset.range (2 ^ 32)).filter fun word => holds word).card := by
  have injective : Function.Injective UInt32.toNat := fun _ _ same => UInt32.toNat_inj.mp same
  rw [← Set.ncard_image_of_injective _ injective, ← Set.ncard_coe_finset]
  congr 1
  ext word
  simp only [Set.mem_image, Set.mem_ofPred_eq, Finset.coe_filter, Finset.mem_range]
  constructor
  · rintro ⟨word, held, rfl⟩
    exact ⟨word.toNat_lt, held⟩
  · rintro ⟨below, held⟩
    have same : (UInt32.ofNat word).toNat = word := UInt32.toNat_ofNat_of_lt' below
    exact ⟨UInt32.ofNat word, by rw [same]; exact held, same⟩

theorem uniformLoop_find (host : Host) (minimum : UInt32) (rnds : List Entropy) :
    ∀ st : RandState, (uniformLoop host minimum st rnds).2 =
      (drawnWords host st rnds).find? fun word => minimum ≤ word := by
  induction rnds with
  | nil =>
      intro st
      rfl
  | cons rnd rnds ih =>
      intro st
      rw [uniformLoop, drawnWords, List.find?_cons]
      split
      next accepts => rw [decide_eq_true accepts]
      next rejects =>
        rw [decide_eq_false rejects]
        exact ih _

/-- A bounded draw maps the words it accepts to the values below its bound without bias. -/
structure Unbiased (upperBound : UInt32) : Prop where
  threshold : (uniformMin upperBound).toNat = 2 ^ 32 % upperBound.toNat
  preimages : ∀ value < upperBound,
    {word : UInt32 | uniformMin upperBound ≤ word ∧ word % upperBound = value}.ncard =
      2 ^ 32 / upperBound.toNat
  accepts : 2 ^ 32 < 2 * {word : UInt32 | uniformMin upperBound ≤ word}.ncard
  returns : ∀ (host : Host) (st : RandState) (rnds : List Entropy) (rejected later : List UInt32)
    (word : UInt32), drawnWords host st rnds = rejected ++ word :: later →
    (∀ other ∈ rejected, other < uniformMin upperBound) → uniformMin upperBound ≤ word →
    (arc4randomUniform host st upperBound rnds).2 = some (word % upperBound)

theorem arc4randomUniform_unbiased {upperBound : UInt32} (least : 2 ≤ upperBound) :
    Unbiased upperBound := by
  have two : 2 ≤ upperBound.toNat := UInt32.le_iff_toNat_le.mp least
  have below := upperBound.toNat_lt
  have threshold := @uniformMin_toNat upperBound (by omega)
  refine ⟨threshold, ?_, ?_, ?_⟩
  · intro value small
    have small' : value.toNat < upperBound.toNat := UInt32.lt_iff_toNat_lt.mp small
    rw [← card_accepted small']
    have counted := ncard_words fun word =>
      2 ^ 32 % upperBound.toNat ≤ word ∧ word % upperBound.toNat = value.toNat
    rw [accepted, ← counted]
    congr 1
    ext word
    simp only [Set.mem_ofPred_eq, UInt32.le_iff_toNat_le, threshold, ← UInt32.toNat_inj,
      UInt32.toNat_mod]
  · have half := @card_rejected_lt (2 ^ 32) upperBound.toNat (by omega) (by omega)
    have counted := ncard_words fun word => 2 ^ 32 % upperBound.toNat ≤ word
    have interval : (Finset.range (2 ^ 32)).filter (2 ^ 32 % upperBound.toNat ≤ ·) =
        Finset.Ico (2 ^ 32 % upperBound.toNat) (2 ^ 32) := by
      ext word
      simp only [Finset.mem_filter, Finset.mem_range, Finset.mem_Ico, and_comm]
    rw [interval, Nat.card_Ico] at counted
    simp only [UInt32.le_iff_toNat_le, threshold, counted]
    omega
  · intro host st rnds rejected later word drawn rejects accepts
    have large : ¬ upperBound < 2 := by
      rw [UInt32.not_lt]
      exact least
    rw [arc4randomUniform, if_neg large]
    dsimp only
    rw [uniformLoop_find, drawn, List.find?_append]
    have none : rejected.find? (fun word => uniformMin upperBound ≤ word) = none := by
      rw [List.find?_eq_none]
      intro other member
      rw [decide_eq_true_eq, UInt32.not_le]
      exact rejects other member
    rw [none, Option.none_or, List.find?_cons, decide_eq_true accepts]
    rfl

def twoWords : RandState where
  rsHave := 8
  rsCount := 100
  rsChacha := ⟨Vector.replicate 16 0⟩
  rsBuf := Vector.ofFn fun i => if i.val = 1020 then 5 else 0
  log := []

def littleHost : Host where
  abi := .lp64
  wordOf bytes := u8to32Little bytes 0

def Block.word (buf : Block) (start : Nat) : UInt32 :=
  (buf[start]?.getD 0).toUInt32 ||| ((buf[start + 1]?.getD 0).toUInt32 <<< 8) |||
    ((buf[start + 2]?.getD 0).toUInt32 <<< 16) ||| ((buf[start + 3]?.getD 0).toUInt32 <<< 24)

theorem rsRandomU32_ready {st : RandState} (rnd : Entropy) (fresh : 4 < st.rsCount)
    (held : 4 ≤ st.rsHave) :
    littleHost.wordOf (rsRandomU32 .lp64 st rnd).2 = st.rsBuf.word (rsbufsz - st.rsHave) ∧
      (rsRandomU32 .lp64 st rnd).1 =
        (RandState.hand { st with rsCount := Abi.lp64.sizeT (st.rsCount - 4) } 4).1 := by
  have unstirred : rsStirIfNeeded .lp64 st 4 rnd =
      { st with rsCount := Abi.lp64.sizeT (st.rsCount - 4) } := by
    rw [rsStirIfNeeded, if_neg (Nat.not_le.mpr fresh)]
    rfl
  have drawn : rsRandomU32 .lp64 st rnd =
      RandState.hand { st with rsCount := Abi.lp64.sizeT (st.rsCount - 4) } 4 := by
    rw [rsRandomU32, unstirred]
    exact congrArg (RandState.hand · 4) (if_neg (Nat.not_lt.mpr held))
  rw [drawn]
  refine ⟨?_, rfl⟩
  simp only [littleHost, RandState.hand, u8to32Little, List.getD_eq_getElem?_getD]
  rw [getElem?_slice _ (by omega), getElem?_slice _ (by omega), getElem?_slice _ (by omega),
    getElem?_slice _ (by omega)]
  rfl

theorem word_ofFn (byteAt : Fin rsbufsz → UInt8) {start : Nat} (room : start + 4 ≤ rsbufsz) :
    Block.word (Vector.ofFn byteAt) start =
      (byteAt ⟨start, by omega⟩).toUInt32 ||| ((byteAt ⟨start + 1, by omega⟩).toUInt32 <<< 8) |||
        ((byteAt ⟨start + 2, by omega⟩).toUInt32 <<< 16) |||
        ((byteAt ⟨start + 3, by omega⟩).toUInt32 <<< 24) := by
  have held : ∀ i (inside : i < rsbufsz),
      (Vector.ofFn byteAt : Block)[i]?.getD 0 = byteAt ⟨i, inside⟩ := by
    intro i inside
    rw [Vector.getElem?_eq_getElem inside, Vector.getElem_ofFn, Option.getD_some]
  rw [Block.word, held start (by omega), held (start + 1) (by omega), held (start + 2) (by omega),
    held (start + 3) (by omega)]

theorem twoWords_drawn (first second : Entropy) :
    drawnWords littleHost twoWords [first, second] = [0] ++ 5 :: [] := by
  obtain ⟨word, state⟩ := @rsRandomU32_ready twoWords first (by decide) (by decide)
  have zero : twoWords.rsBuf.word 1016 = 0 := by
    rw [twoWords, word_ofFn _ (by decide)]
    decide
  generalize once : (rsRandomU32 .lp64 twoWords first).1 = rest at state
  have count : rest.rsCount = 96 := by rw [state]; rfl
  have left : rest.rsHave = 4 := by rw [state]; rfl
  obtain ⟨word', -⟩ := @rsRandomU32_ready rest second (by omega) (by omega)
  have five : rest.rsBuf.word 1020 = 5 := by
    rw [state]
    change Block.word (Vector.ofFn _) 1020 = 5
    rw [word_ofFn _ (by decide)]
    have start : rsbufsz - 8 = 1016 := rfl
    simp [twoWords, start]
  change [_, littleHost.wordOf (rsRandomU32 .lp64 (rsRandomU32 .lp64 twoWords first).1 second).2] = _
  rw [once, word', left]
  change [littleHost.wordOf (rsRandomU32 .lp64 twoWords first).2, rest.rsBuf.word 1020] = _
  rw [five, word]
  change [twoWords.rsBuf.word 1016, 5] = _
  rw [zero]
  rfl

theorem arc4randomUniform_unbiased_three :
    (arc4randomUniform littleHost twoWords 3
      [Vector.replicate 40 0, Vector.replicate 40 0]).2 = some 2 := by
  have minimum : uniformMin 3 = 1 := by decide +kernel
  have unbiased : Unbiased 3 := arc4randomUniform_unbiased (by decide)
  have rejects : ∀ other ∈ [(0 : UInt32)], other < uniformMin 3 := by
    intro other member
    rw [List.mem_singleton.mp member, minimum]
    decide
  have accepts : uniformMin 3 ≤ 5 := by
    rw [minimum]
    decide
  have value : (5 : UInt32) % 3 = 2 := by decide
  rw [unbiased.returns littleHost twoWords _ _ _ _ (twoWords_drawn _ _) rejects accepts,
    value]

end LegacySupport.Arc4random
