import LegacySupport.FixedPoint
import LegacySupport.ClockCore

/-!
The accuracy of the mach scaling: the multiplier of `setup_mach_mult` against the timebase it is
derived from, and `mach2nanos` against the exact product.
-/

namespace LegacySupport.Time

open CInt FixedPoint

/-! ## The middle of a 128-bit product -/

theorem toNat_toUInt32_toUInt64 (value : UInt64) :
    value.toUInt32.toUInt64.toNat = value.toNat % 2 ^ 32 := by
  rw [UInt32.toNat_toUInt64, UInt64.toNat_toUInt32]

theorem toNat_high_half (value : UInt64) :
    (value >>> 32).toUInt32.toUInt64.toNat = value.toNat / 2 ^ 32 := by
  have bound := value.toNat_lt
  have shift : (32 : UInt64).toNat % 64 = 32 := rfl
  rw [toNat_toUInt32_toUInt64, UInt64.toNat_shiftRight, shift, Nat.shiftRight_eq_div_pow]
  omega

theorem toNat_and_mask64Low (value : UInt64) :
    (value &&& mask64Low).toNat = value.toNat % 2 ^ 32 := by
  have mask : mask64Low.toNat = 2 ^ 32 - 1 := rfl
  rw [UInt64.toNat_and, mask, Nat.and_two_pow_sub_one_eq_mod]

theorem toNat_shiftRight_32 (value : UInt64) : (value >>> 32).toNat = value.toNat / 2 ^ 32 := by
  have shift : (32 : UInt64).toNat % 64 = 32 := rfl
  rw [UInt64.toNat_shiftRight, shift, Nat.shiftRight_eq_div_pow]

theorem toNat_shiftLeft_32 (value : UInt64) :
    (value <<< 32).toNat = value.toNat * 2 ^ 32 % 2 ^ 64 := by
  have shift : (32 : UInt64).toNat % 64 = 32 := rfl
  rw [UInt64.toNat_shiftLeft, shift, Nat.shiftLeft_eq]

theorem halves_product (aHi aLo bHi bLo : Nat) :
    (aHi * 2 ^ 32 + aLo) * (bHi * 2 ^ 32 + bLo) / 2 ^ 32 =
      (aHi * bHi + aHi * bLo / 2 ^ 32) * 2 ^ 32 +
        (aLo * bHi + (aHi * bLo % 2 ^ 32 + aLo * bLo / 2 ^ 32)) := by
  have expanded : (aHi * 2 ^ 32 + aLo) * (bHi * 2 ^ 32 + bLo) =
      aLo * bLo + 2 ^ 32 * (aHi * bHi * 2 ^ 32 + aHi * bLo + aLo * bHi) := by ring
  rw [expanded, Nat.add_mul_div_left _ _ (by decide)]
  have split := Nat.div_add_mod (aHi * bLo) (2 ^ 32)
  omega

theorem folded_middle (half modulus mid carry high : Nat) :
    ((high + (mid / half + carry)) * half % modulus + mid % half) % modulus =
      ((high + carry) * half + mid) % modulus := by
  have split := Nat.div_add_mod mid half
  have regrouped : (high + (mid / half + carry)) * half + mid % half =
      (high + carry) * half + (half * (mid / half) + mid % half) := by ring
  rw [Nat.mod_add_mod, regrouped, split]

theorem half_product_le (x y : Nat) (xBound : x < 2 ^ 32) (yBound : y < 2 ^ 32) :
    x * y ≤ 2 ^ 64 - 2 ^ 33 + 1 := by
  have bound := Nat.mul_le_mul (Nat.le_sub_one_of_lt xBound) (Nat.le_sub_one_of_lt yBound)
  norm_num at bound ⊢
  exact bound

/-- What `mmul64` computes on the way: the cross products of the halves, and the two sums that
the others are folded into. -/
structure Folding where
  low : UInt64
  mid1 : UInt64
  mid2 : UInt64
  high : UInt64
  foldedMid1 : UInt64
  foldedHigh : UInt64

def folding (a b : UInt64) : Folding :=
  let low := a.toUInt32.toUInt64 * b.toUInt32.toUInt64
  let mid1 := a.toUInt32.toUInt64 * (b >>> 32).toUInt32.toUInt64
  let mid2 := (a >>> 32).toUInt32.toUInt64 * b.toUInt32.toUInt64
  let high := (a >>> 32).toUInt32.toUInt64 * (b >>> 32).toUInt32.toUInt64
  let foldedMid1 := mid1 + ((mid2 &&& mask64Low) + (low >>> 32))
  { low, mid1, mid2, high, foldedMid1, foldedHigh := high + ((foldedMid1 >>> 32) + (mid2 >>> 32)) }

theorem mmul64_folding (a b : UInt64) :
    mmul64 a b = ((folding a b).foldedHigh <<< 32) + ((folding a b).foldedMid1 &&& mask64Low) :=
  rfl

structure Folding.Exact (folding : Folding) (a b : Nat) : Prop where
  low : folding.low.toNat = a % 2 ^ 32 * (b % 2 ^ 32)
  mid1 : folding.mid1.toNat = a % 2 ^ 32 * (b / 2 ^ 32)
  mid2 : folding.mid2.toNat = a / 2 ^ 32 * (b % 2 ^ 32)
  high : folding.high.toNat = a / 2 ^ 32 * (b / 2 ^ 32)
  foldedMid1 : folding.foldedMid1.toNat =
    folding.mid1.toNat + (folding.mid2.toNat % 2 ^ 32 + folding.low.toNat / 2 ^ 32)
  foldedHigh : folding.foldedHigh.toNat =
    folding.high.toNat + (folding.foldedMid1.toNat / 2 ^ 32 + folding.mid2.toNat / 2 ^ 32)

theorem toNat_half_product {x y : UInt64} (xBound : x.toNat < 2 ^ 32) (yBound : y.toNat < 2 ^ 32) :
    (x * y).toNat = x.toNat * y.toNat ∧ x.toNat * y.toNat ≤ 2 ^ 64 - 2 ^ 33 + 1 := by
  have bound := half_product_le _ _ xBound yBound
  refine ⟨?_, bound⟩
  rw [UInt64.toNat_mul]
  exact Nat.mod_eq_of_lt (by omega)

theorem folding_exact (a b : UInt64) : (folding a b).Exact a.toNat b.toNat := by
  have aHigh := toNat_high_half a
  have bHigh := toNat_high_half b
  have aLow := toNat_toUInt32_toUInt64 a
  have bLow := toNat_toUInt32_toUInt64 b
  have aBound := a.toNat_lt
  have bBound := b.toNat_lt
  obtain ⟨low, lowBound⟩ := @toNat_half_product a.toUInt32.toUInt64 b.toUInt32.toUInt64
    (by omega) (by omega)
  obtain ⟨mid1, mid1Bound⟩ := @toNat_half_product a.toUInt32.toUInt64
    (b >>> 32).toUInt32.toUInt64 (by omega) (by omega)
  obtain ⟨mid2, mid2Bound⟩ := @toNat_half_product (a >>> 32).toUInt32.toUInt64
    b.toUInt32.toUInt64 (by omega) (by omega)
  obtain ⟨high, highBound⟩ := @toNat_half_product (a >>> 32).toUInt32.toUInt64
    (b >>> 32).toUInt32.toUInt64 (by omega) (by omega)
  rw [← low] at lowBound
  rw [← mid1] at mid1Bound
  rw [← mid2] at mid2Bound
  rw [← high] at highBound
  have foldedMid1 : (folding a b).foldedMid1.toNat = (folding a b).mid1.toNat +
      ((folding a b).mid2.toNat % 2 ^ 32 + (folding a b).low.toNat / 2 ^ 32) := by
    simp only [folding, UInt64.toNat_add, toNat_and_mask64Low, toNat_shiftRight_32]
    omega
  constructor
  · rw [← aLow, ← bLow]
    exact low
  · rw [← aLow, ← bHigh]
    exact mid1
  · rw [← aHigh, ← bLow]
    exact mid2
  · rw [← aHigh, ← bHigh]
    exact high
  · exact foldedMid1
  · have bound := (folding a b).foldedMid1.toNat_lt
    generalize folded : (folding a b).foldedMid1 = sum at bound
    simp only [folding] at folded
    simp only [folding, folded, UInt64.toNat_add, toNat_shiftRight_32]
    omega

theorem toNat_mmul64 (a b : UInt64) :
    (mmul64 a b).toNat = a.toNat * b.toNat / 2 ^ 32 % 2 ^ 64 := by
  obtain ⟨low, mid1, mid2, high, foldedMid1, foldedHigh⟩ := folding_exact a b
  have aSplit : a.toNat / 2 ^ 32 * 2 ^ 32 + a.toNat % 2 ^ 32 = a.toNat :=
    Nat.div_add_mod' _ _
  have bSplit : b.toNat / 2 ^ 32 * 2 ^ 32 + b.toNat % 2 ^ 32 = b.toNat :=
    Nat.div_add_mod' _ _
  have product := halves_product (a.toNat / 2 ^ 32) (a.toNat % 2 ^ 32) (b.toNat / 2 ^ 32)
    (b.toNat % 2 ^ 32)
  rw [aSplit, bSplit, ← low, ← mid1, ← mid2, ← high, ← foldedMid1] at product
  rw [product, mmul64_folding, UInt64.toNat_add, toNat_shiftLeft_32, toNat_and_mask64Low,
    foldedHigh]
  exact folded_middle _ _ _ _ _

theorem mmul64_middle (a b : UInt64) :
    (mmul64 a b).toNat = a.toNat * b.toNat / 2 ^ 32 % 2 ^ 64 ∧
      (folding a b).Exact a.toNat b.toNat :=
  ⟨toNat_mmul64 a b, folding_exact a b⟩

theorem toNat_mach2nanos (mach : MachStatics) (machTime : UInt64)
    (bound : machTime.toNat * mach.mult.toNat < 2 ^ 96) :
    (mach2nanos mach machTime).toNat = machTime.toNat * mach.mult.toNat / 2 ^ highShift := by
  have shift : (UInt64.ofNat extraShift).toNat % 64 = extraShift := rfl
  have scale : nullScale.toNat = 2 ^ highShift := rfl
  unfold mach2nanos
  split
  next unit =>
    rw [unit, scale, Nat.mul_div_cancel _ (by decide)]
  next =>
    have middle : machTime.toNat * mach.mult.toNat / 2 ^ 32 < 2 ^ 64 := by omega
    rw [UInt64.toNat_shiftRight, shift, toNat_mmul64, Nat.mod_eq_of_lt middle,
      Nat.shiftRight_eq_div_pow, Nat.div_div_eq_div_mul]
    rfl

/-! ## The multiplier -/

def exactMult (numer denom : Nat) : Nat :=
  if numer < 2 ^ 30 then roundedQuotient (numer * 2 ^ 34) denom
  else roundedQuotient (numer * 2 ^ 32) denom * 2 ^ 2

/-- The multiplier is computed without overflow: neither the rounded dividend nor the value
shifted after the division leaves 64 bits. -/
structure MultExact (numer denom : Nat) (mult : UInt64) : Prop where
  dividend : numer * 2 ^ (if numer < 2 ^ 30 then 34 else 32) + denom / 2 < 2 ^ 64
  value : mult.toNat = exactMult numer denom

theorem and_numeratorMask (numer : UInt32) :
    numer &&& numeratorMask = 0 ↔ numer.toNat < 2 ^ 30 := by
  have bound := numer.toNat_lt
  have mask : numeratorMask.toNat = 3 * 2 ^ 30 := rfl
  have masked : (numer &&& numeratorMask).toNat / 2 ^ 30 = numer.toNat / 2 ^ 30 := by
    rw [UInt32.toNat_and, mask, Nat.and_div_two_pow, Nat.mul_div_cancel _ (by decide),
      show 3 = 2 ^ 2 - 1 from rfl, Nat.and_two_pow_sub_one_eq_mod]
    omega
  have low : (numer &&& numeratorMask).toNat % 2 ^ 30 = 0 := by
    rw [UInt32.toNat_and, mask, Nat.and_mod_two_pow, Nat.mul_mod_left, Nat.and_zero]
  have zero : numer &&& numeratorMask = 0 ↔ (numer &&& numeratorMask).toNat = 0 := by
    rw [← UInt32.toNat_inj]
    rfl
  rw [zero]
  omega

theorem toNat_half (denom : UInt32) : (denom / 2).toUInt64.toNat = denom.toNat / 2 := by
  rw [UInt32.toNat_toUInt64, UInt32.toNat_div]
  rfl

theorem toNat_shiftLeft (value : UInt64) (shift : Nat) (small : shift < 64)
    (fits : value.toNat * 2 ^ shift < 2 ^ 64) :
    (value <<< UInt64.ofNat shift).toNat = value.toNat * 2 ^ shift := by
  have amount : (UInt64.ofNat shift).toNat % 64 = shift := by
    rw [UInt64.toNat_ofNat', Nat.mod_mod_of_dvd _ (by decide), Nat.mod_eq_of_lt small]
  rw [UInt64.toNat_shiftLeft, amount, Nat.shiftLeft_eq, Nat.mod_eq_of_lt fits]

theorem toNat_roundedDivision (dividend : UInt64) (denom : UInt32)
    (fits : dividend.toNat + denom.toNat / 2 < 2 ^ 64) :
    ((dividend + (denom / 2).toUInt64) / denom.toUInt64).toNat =
      roundedQuotient dividend.toNat denom.toNat := by
  rw [UInt64.toNat_div, UInt64.toNat_add, toNat_half, UInt32.toNat_toUInt64,
    Nat.mod_eq_of_lt fits, roundedQuotient]

theorem toNat_numerator_shiftLeft (numer : UInt32) (shift : Nat) (small : shift < 64)
    (fits : numer.toNat * 2 ^ shift < 2 ^ 64) :
    (numer.toUInt64 <<< UInt64.ofNat shift).toNat = numer.toNat * 2 ^ shift := by
  rw [← UInt32.toNat_toUInt64] at fits ⊢
  exact toNat_shiftLeft numer.toUInt64 shift small fits

/-- A timebase the scaling can hold: less than `2 ^ 30` nanoseconds a tick. -/
structure Timebase (numer denom : UInt32) : Prop where
  numerPositive : 1 ≤ numer.toNat
  denomPositive : 1 ≤ denom.toNat
  ratio : numer.toNat < 2 ^ 30 * denom.toNat

theorem scaledQuotient_lt (numer denom : Nat) (positive : 1 ≤ denom) (denomBound : denom < 2 ^ 32)
    (ratio : numer < 2 ^ 30 * denom) : roundedQuotient (numer * 2 ^ 32) denom < 2 ^ 62 := by
  rw [roundedQuotient, Nat.div_lt_iff_lt_mul positive]
  omega

theorem machMultOf_exact (numer denom : UInt32) (timebase : Timebase numer denom) :
    MultExact numer.toNat denom.toNat (machMultOf numer denom) := by
  have numerBound := numer.toNat_lt
  have denomBound := denom.toNat_lt
  have shift : UInt64.ofNat highShift = UInt64.ofNat 34 := rfl
  have extra : UInt64.ofNat extraShift = UInt64.ofNat 2 := rfl
  have thirtyTwo : (32 : UInt64) = UInt64.ofNat 32 := rfl
  have positive := timebase.denomPositive
  by_cases small : numer.toNat < 2 ^ 30
  · have dividend : numer.toNat * 2 ^ 34 + denom.toNat / 2 < 2 ^ 64 := by omega
    have fits : numer.toNat * 2 ^ 34 < 2 ^ 64 := Nat.lt_of_le_of_lt (Nat.le_add_right _ _) dividend
    have shifted := toNat_numerator_shiftLeft numer 34 (by decide) fits
    have divided := toNat_roundedDivision (numer.toUInt64 <<< UInt64.ofNat 34) denom
      (by rewrite [shifted]; exact dividend)
    constructor
    · rewrite [if_pos small]
      exact dividend
    · rw [machMultOf, if_pos ((and_numeratorMask numer).mpr small), shift, divided, shifted,
        exactMult, if_pos small]
  · have dividend : numer.toNat * 2 ^ 32 + denom.toNat / 2 < 2 ^ 64 := by omega
    have fits : numer.toNat * 2 ^ 32 < 2 ^ 64 := Nat.lt_of_le_of_lt (Nat.le_add_right _ _) dividend
    have shifted := toNat_numerator_shiftLeft numer 32 (by decide) fits
    have divided := toNat_roundedDivision (numer.toUInt64 <<< UInt64.ofNat 32) denom
      (by rewrite [shifted]; exact dividend)
    rw [shifted] at divided
    have quotient := scaledQuotient_lt numer.toNat denom.toNat positive denomBound timebase.ratio
    have restored := toNat_shiftLeft ((numer.toUInt64 <<< UInt64.ofNat 32 +
      (denom / 2).toUInt64) / denom.toUInt64) 2 (by decide) (by rewrite [divided]; omega)
    constructor
    · rewrite [if_neg small]
      exact dividend
    · rw [machMultOf, if_neg (fun masked => small ((and_numeratorMask numer).mp masked)), extra,
        thirtyTwo, restored, divided, exactMult, if_neg small]

/-! ## Accuracy -/

theorem exactMult_approximates (numer denom : Nat) (positive : 1 ≤ denom) :
    Approximates (2 ^ 34) (numer / denom) (if numer < 2 ^ 30 then 1 / 2 else 2)
      (exactMult numer denom) := by
  unfold exactMult
  split
  next small => exact roundedQuotient_approximates numer denom (2 ^ 34) positive
  next large =>
    have halved := (roundedQuotient_approximates numer denom (2 ^ 32) positive).rescale (2 ^ 2)
    have tolerance : (1 / 2 * (2 ^ 2 : Nat) : ℚ) = 2 := by norm_num
    rw [tolerance] at halved
    exact halved

theorem exactMult_self (denom : Nat) (positive : 1 ≤ denom) : exactMult denom denom = 2 ^ 34 := by
  have commuted : ∀ scale, denom * scale = scale * denom := fun scale => Nat.mul_comm denom scale
  unfold exactMult
  split
  next small => rw [commuted, roundedQuotient_mul _ _ positive]
  next large => rw [commuted, roundedQuotient_mul _ _ positive, ← Nat.pow_add]

theorem exactMult_unit (numer denom : Nat) (positive : 1 ≤ denom) (denomBound : denom < 2 ^ 32) :
    exactMult numer denom = 2 ^ 34 ↔ numer = denom := by
  constructor
  · intro unit
    have close := exactMult_approximates numer denom positive
    rw [unit] at close
    apply close.unit positive
    have bound : (denom : ℚ) < 2 ^ 32 := by exact_mod_cast denomBound
    push_cast
    split
    next => linarith
    next => linarith
  · intro equal
    rw [equal, exactMult_self denom positive]

theorem exactMult_pos (numer denom : Nat) (numerPositive : 1 ≤ numer) (denomPositive : 1 ≤ denom)
    (denomBound : denom < 2 ^ 32) : 0 < exactMult numer denom := by
  unfold exactMult roundedQuotient
  split
  next small =>
    apply Nat.div_pos
    · omega
    · omega
  next large =>
    apply Nat.mul_pos
    · apply Nat.div_pos
      · omega
      · omega
    · decide

def scalingError (numer : UInt32) (machTime : UInt64) : ℚ :=
  machTime.toNat / 2 ^ (if numer.toNat < 2 ^ 30 then 35 else 33) + 1

theorem mach2nanos_error (mach : MachStatics) (numer denom : UInt32) (machTime : UInt64)
    (positive : 1 ≤ denom.toNat) (exact : MultExact numer.toNat denom.toNat mach.mult)
    (representable : (machTime.toNat * numer.toNat / denom.toNat + machTime.toNat / 2 ^ 33 + 1 : ℚ)
      ≤ 2 ^ 62) :
    |((mach2nanos mach machTime).toNat : ℚ) - machTime.toNat * numer.toNat / denom.toNat| <
      scalingError numer machTime := by
  have close := exactMult_approximates numer.toNat denom.toNat positive
  rw [← exact.value] at close
  have nonneg : (0 : ℚ) ≤ machTime.toNat := Nat.cast_nonneg _
  have scalePositive : 0 < 2 ^ 34 := by decide
  have product := close.product_lt scalePositive machTime.toNat (2 ^ 62) (by
    rw [← mul_div_assoc]
    push_cast
    split
    next => linarith
    next => linarith)
  have scaled := close.scaled_error scalePositive machTime.toNat
  rw [toNat_mach2nanos mach machTime (by norm_num at product ⊢; omega)]
  rw [← mul_div_assoc] at scaled
  refine lt_of_lt_of_eq scaled ?_
  unfold scalingError
  push_cast
  split
  next => ring
  next => ring

theorem setupMachMult_accurate (abi : Abi) (numer denom : UInt32)
    (timebase : Timebase numer denom) :
    MultExact numer.toNat denom.toNat (setupMachMult abi (some (numer, denom)) .initial).2.mult ∧
      (setupMachMult abi (some (numer, denom)) .initial).2.mult ≠ 0 ∧
      ((setupMachMult abi (some (numer, denom)) .initial).2.mult = nullScale ↔ numer = denom) ∧
      ∀ machTime : UInt64,
        (machTime.toNat * numer.toNat / denom.toNat + machTime.toNat / 2 ^ 33 + 1 : ℚ) ≤ 2 ^ 62 →
        |((mach2nanos (setupMachMult abi (some (numer, denom)) .initial).2 machTime).toNat : ℚ) -
            machTime.toNat * numer.toNat / denom.toNat| < scalingError numer machTime := by
  have denomBound := denom.toNat_lt
  have exact : MultExact numer.toNat denom.toNat
      (setupMachMult abi (some (numer, denom)) .initial).2.mult :=
    machMultOf_exact numer denom timebase
  have unit := exactMult_unit numer.toNat denom.toNat timebase.denomPositive denomBound
  have positive := exactMult_pos numer.toNat denom.toNat timebase.numerPositive
    timebase.denomPositive denomBound
  have scale : nullScale.toNat = 2 ^ 34 := rfl
  rw [← exact.value] at unit positive
  refine ⟨exact, ?_, ?_, ?_⟩
  · intro zero
    rw [zero] at positive
    exact absurd positive (by decide)
  · rw [← UInt64.toNat_inj, ← UInt32.toNat_inj, scale]
    exact unit
  · intro machTime representable
    exact mach2nanos_error _ numer denom machTime timebase.denomPositive exact representable

theorem setupMachMult_accurate_powerpc :
    |((mach2nanos (setupMachMult .ilp32 (some (1000000000, 33333333)) .initial).2
        33333333).toNat : ℚ) - 1000000000| < 33333333 / 2 ^ 35 + 1 := by
  have error := (setupMachMult_accurate .ilp32 1000000000 33333333 ⟨by decide, by decide, by decide⟩
    ).2.2.2 33333333
  have numer : (1000000000 : UInt32).toNat = 1000000000 := rfl
  have denom : (33333333 : UInt32).toNat = 33333333 := rfl
  have machTime : (33333333 : UInt64).toNat = 33333333 := rfl
  rw [scalingError, numer, denom, machTime] at error
  norm_num at error ⊢
  exact error

end LegacySupport.Time
