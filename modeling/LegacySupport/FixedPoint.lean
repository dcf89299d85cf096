import Mathlib

/-!
Ratios held as a multiplier over a scale: the error of rounding the multiplier to the nearest
integer, what that error becomes in a product, and when the rounded ratio has the same ceiling.
-/

namespace FixedPoint

/-- The integer nearest to a quotient, a half rounded up. -/
def roundedQuotient (dividend divisor : Nat) : Nat := (dividend + divisor / 2) / divisor

def Approximates (scale : Nat) (ratio tolerance : ℚ) (mult : Nat) : Prop :=
  |(mult : ℚ) - ratio * scale| ≤ tolerance

theorem roundedQuotient_nearest (dividend divisor : Nat) (positive : 0 < divisor) :
    2 * (roundedQuotient dividend divisor * divisor) ≤ 2 * dividend + divisor ∧
      2 * dividend ≤ 2 * (roundedQuotient dividend divisor * divisor) + divisor := by
  have split := Nat.div_add_mod (dividend + divisor / 2) divisor
  have remainder := Nat.mod_lt (dividend + divisor / 2) positive
  rw [Nat.mul_comm] at split
  unfold roundedQuotient
  constructor
  · omega
  · omega

theorem roundedQuotient_mul (quotient divisor : Nat) (positive : 0 < divisor) :
    roundedQuotient (quotient * divisor) divisor = quotient := by
  have half : divisor / 2 < divisor := by omega
  rw [roundedQuotient, Nat.add_comm, Nat.add_mul_div_right _ _ positive,
    Nat.div_eq_of_lt half, Nat.zero_add]

theorem roundedQuotient_le (dividend divisor quotient : Nat) (positive : 0 < divisor)
    (bound : dividend ≤ quotient * divisor) : roundedQuotient dividend divisor ≤ quotient := by
  have monotone : roundedQuotient dividend divisor ≤
      roundedQuotient (quotient * divisor) divisor := by
    apply Nat.div_le_div_right
    omega
  rwa [roundedQuotient_mul quotient divisor positive] at monotone

theorem roundedQuotient_approximates (numer denom scale : Nat) (positive : 0 < denom) :
    Approximates scale (numer / denom) (1 / 2) (roundedQuotient (numer * scale) denom) := by
  obtain ⟨upper, lower⟩ := roundedQuotient_nearest (numer * scale) denom positive
  have divisor : (0 : ℚ) < denom := by exact_mod_cast positive
  have upperCast : 2 * ((roundedQuotient (numer * scale) denom : ℚ) * denom) ≤
      2 * (numer * scale) + denom := by exact_mod_cast upper
  have lowerCast : 2 * ((numer : ℚ) * scale) ≤
      2 * (roundedQuotient (numer * scale) denom * denom) + denom := by exact_mod_cast lower
  have exact : (numer / denom * scale : ℚ) = numer * scale / denom := by ring
  rw [Approximates, exact, abs_le]
  constructor
  · have quotient : (numer * scale / denom : ℚ) ≤
        roundedQuotient (numer * scale) denom + 1 / 2 := by
      rw [div_le_iff₀ divisor]
      linarith
    linarith
  · have quotient : (roundedQuotient (numer * scale) denom : ℚ) - 1 / 2 ≤
        numer * scale / denom := by
      rw [le_div_iff₀ divisor]
      linarith
    linarith

section Multiplier

variable {scale mult : Nat} {ratio tolerance : ℚ}

theorem Approximates.rescale (close : Approximates scale ratio tolerance mult) (factor : Nat) :
    Approximates (scale * factor) ratio (tolerance * factor) (mult * factor) := by
  have nonneg : (0 : ℚ) ≤ factor := Nat.cast_nonneg factor
  have stretched : ((mult * factor : Nat) : ℚ) - ratio * (scale * factor : Nat) =
      (mult - ratio * scale) * factor := by
    push_cast
    ring
  rw [Approximates, stretched, abs_mul, abs_of_nonneg nonneg]
  exact mul_le_mul_of_nonneg_right close nonneg

theorem Approximates.product_error (close : Approximates scale ratio tolerance mult)
    (positive : 0 < scale) (factor : Nat) :
    |(factor * mult / scale : ℚ) - factor * ratio| ≤ factor * tolerance / scale := by
  have divisor : (0 : ℚ) < scale := by exact_mod_cast positive
  have nonneg : (0 : ℚ) ≤ factor / scale := by positivity
  have scaled : (factor * mult / scale : ℚ) - factor * ratio =
      factor / scale * (mult - ratio * scale) := by
    field_simp
  rw [scaled, abs_mul, abs_of_nonneg nonneg]
  calc (factor / scale : ℚ) * |(mult : ℚ) - ratio * scale|
      ≤ factor / scale * tolerance := mul_le_mul_of_nonneg_left close nonneg
    _ = factor * tolerance / scale := by ring

theorem Approximates.scaled_error (close : Approximates scale ratio tolerance mult)
    (positive : 0 < scale) (factor : Nat) :
    |((factor * mult / scale : Nat) : ℚ) - factor * ratio| < factor * tolerance / scale + 1 := by
  have divisor : (0 : ℚ) < scale := by exact_mod_cast positive
  have product := close.product_error positive factor
  have floorLower := Nat.cast_div_le (α := ℚ) (m := factor * mult) (n := scale)
  have floorUpper : ((factor * mult : Nat) : ℚ) / scale < (factor * mult / scale : Nat) + 1 := by
    have next := Nat.lt_mul_div_succ (factor * mult) positive
    rw [Nat.mul_comm scale] at next
    rw [div_lt_iff₀ divisor]
    exact_mod_cast next
  push_cast at floorLower floorUpper
  rw [abs_le] at product
  rw [abs_lt]
  constructor
  · linarith [product.1]
  · linarith [product.2]

theorem Approximates.product_lt (close : Approximates scale ratio tolerance mult)
    (positive : 0 < scale) (factor bound : Nat)
    (below : factor * ratio + factor * tolerance / scale < bound) :
    factor * mult < bound * scale := by
  have divisor : (0 : ℚ) < scale := by exact_mod_cast positive
  have product := (abs_le.mp (close.product_error positive factor)).2
  have quotient : (factor * mult / scale : ℚ) < bound := by linarith
  rw [div_lt_iff₀ divisor] at quotient
  exact_mod_cast quotient

end Multiplier

theorem Approximates.unit {scale : Nat} {tolerance : ℚ} {numer denom : Nat}
    (close : Approximates scale (numer / denom) tolerance scale) (positive : 0 < denom)
    (fine : tolerance * denom < scale) : numer = denom := by
  have divisor : (0 : ℚ) < denom := by exact_mod_cast positive
  have distance : |((denom : ℤ) - numer : ℚ)| * scale ≤ tolerance * denom := by
    have factored : (scale : ℚ) - numer / denom * scale = (denom - numer) * scale / denom := by
      field_simp
    rw [Approximates, factored, abs_div, abs_mul, abs_of_pos divisor, Nat.abs_cast,
      div_le_iff₀ divisor] at close
    exact_mod_cast close
  have scalePositive : (0 : ℚ) < scale := by
    have := abs_nonneg ((denom : ℤ) - numer : ℚ)
    have : (0 : ℚ) ≤ |((denom : ℤ) - numer : ℚ)| * scale := by positivity
    linarith
  have small : |((denom : ℤ) - numer : ℚ)| < 1 := by
    by_contra large
    have : (1 : ℚ) * scale ≤ |((denom : ℤ) - numer : ℚ)| * scale :=
      mul_le_mul_of_nonneg_right (not_lt.mp large) scalePositive.le
    linarith
  have integral : |(denom : ℤ) - numer| < 1 := by exact_mod_cast small
  have zero := Int.abs_lt_one_iff.mp integral
  omega

theorem roundedQuotient_ceil (numer denom scale : Nat) (positive : 0 < denom)
    (fine : denom ≤ scale) :
    scale * ⌈(numer : ℚ) / denom⌉₊ < roundedQuotient (numer * scale) denom + scale ∧
      roundedQuotient (numer * scale) denom ≤ scale * ⌈(numer : ℚ) / denom⌉₊ := by
  have divisor : (0 : ℚ) < denom := by exact_mod_cast positive
  have upper : numer ≤ ⌈(numer : ℚ) / denom⌉₊ * denom := by
    have bound := Nat.le_ceil ((numer : ℚ) / denom)
    rw [div_le_iff₀ divisor] at bound
    exact_mod_cast bound
  have lower : ⌈(numer : ℚ) / denom⌉₊ * denom < numer + denom := by
    have bound := Nat.ceil_lt_add_one (div_nonneg (Nat.cast_nonneg numer) divisor.le)
    rw [← sub_lt_iff_lt_add, lt_div_iff₀ divisor] at bound
    have cast : (⌈(numer : ℚ) / denom⌉₊ : ℚ) * denom < numer + denom := by linarith
    exact_mod_cast cast
  generalize ⌈(numer : ℚ) / denom⌉₊ = ceiling at upper lower ⊢
  constructor
  · obtain ⟨-, nearest⟩ := roundedQuotient_nearest (numer * scale) denom positive
    by_contra reached
    have reaches : roundedQuotient (numer * scale) denom + scale ≤ scale * ceiling := by omega
    have stretched := Nat.mul_le_mul_right denom reaches
    have gap : ceiling * denom + 1 ≤ numer + denom := lower
    have widened := Nat.mul_le_mul_right scale gap
    have rearranged : scale * ceiling * denom = ceiling * denom * scale := by ring
    have scalePositive : 0 < scale := by omega
    have commuted : denom * scale = scale * denom := Nat.mul_comm denom scale
    rw [rearranged] at stretched
    rw [Nat.add_mul] at stretched widened
    rw [Nat.add_mul, commuted] at widened
    omega
  · apply roundedQuotient_le _ _ _ positive
    calc numer * scale ≤ ceiling * denom * scale := Nat.mul_le_mul_right scale upper
      _ = scale * ceiling * denom := by ring

theorem ceil_of_interval (scale ceiling mult : Nat) (positive : 0 < scale)
    (lower : scale * ceiling < mult + scale) (upper : mult ≤ scale * ceiling) :
    (mult + (scale - 1)) / scale = ceiling := by
  rw [Nat.div_eq_iff positive, Nat.mul_comm ceiling scale]
  omega

end FixedPoint
