import LegacySupport.MachScale

/-!
The resolution of the mach-based clocks: the ceiling of the timebase, although it is taken of
the multiplier that has already been rounded.
-/

namespace LegacySupport.Time

open CInt FixedPoint

/-- The mach statics a program can reach: every clock function sets them up through these. -/
inductive MachReached (abi : Abi) (timebase : Option (UInt32 × UInt32)) : MachStatics → Prop
  | initial : MachReached abi timebase .initial
  | scale {mach : MachStatics} :
      MachReached abi timebase mach → MachReached abi timebase (getMachScale timebase mach).2
  | mult {mach : MachStatics} :
      MachReached abi timebase mach → MachReached abi timebase (setupMachMult abi timebase mach).2

structure MachCached (abi : Abi) (numer denom : UInt32) (mach : MachStatics) : Prop where
  scale : mach.numer = 0 ∨ (mach.numer = numer ∧ mach.denom = denom)
  mult : (mach.mult = 0 ∧ mach.resNsec = 0) ∨
    mach = (setupMachMult abi (some (numer, denom)) .initial).2

theorem getMachScale_cached (abi : Abi) (numer denom : UInt32) (mach : MachStatics)
    (nonzero : numer ≠ 0) (cached : MachCached abi numer denom mach) :
    getMachScale (some (numer, denom)) mach = (0, { mach with numer, denom }) := by
  unfold getMachScale
  rcases cached.scale with zero | ⟨scaleNumer, scaleDenom⟩
  · rw [if_neg (not_not.mpr zero)]
  · rw [if_pos (by rwa [scaleNumer]), ← scaleNumer, ← scaleDenom]

theorem setupMachMult_cached (abi : Abi) (numer denom : UInt32) (mach : MachStatics)
    (nonzero : numer ≠ 0) (cached : MachCached abi numer denom mach) :
    setupMachMult abi (some (numer, denom)) mach =
      (0, (setupMachMult abi (some (numer, denom)) .initial).2) := by
  simp only [setupMachMult, getMachScale_cached abi numer denom mach nonzero cached]
  rfl

theorem machReached_cached (abi : Abi) (numer denom : UInt32) (nonzero : numer ≠ 0) :
    ∀ mach, MachReached abi (some (numer, denom)) mach → MachCached abi numer denom mach := by
  intro mach reached
  induction reached with
  | initial => exact ⟨Or.inl rfl, Or.inl ⟨rfl, rfl⟩⟩
  | @scale mach reached ih =>
      rw [getMachScale_cached abi numer denom mach nonzero ih]
      refine ⟨Or.inr ⟨rfl, rfl⟩, ?_⟩
      rcases ih.mult with empty | full
      · exact Or.inl empty
      · right
        rw [full]
        rfl
  | @mult mach reached ih =>
      rw [setupMachMult_cached abi numer denom mach nonzero ih]
      exact ⟨Or.inr ⟨rfl, rfl⟩, Or.inr rfl⟩

theorem exactMult_ceil (numer denom : Nat) (positive : 1 ≤ denom) (denomBound : denom < 2 ^ 32) :
    2 ^ 34 * ⌈(numer : ℚ) / denom⌉₊ < exactMult numer denom + 2 ^ 34 ∧
      exactMult numer denom ≤ 2 ^ 34 * ⌈(numer : ℚ) / denom⌉₊ := by
  unfold exactMult
  split
  next small => exact roundedQuotient_ceil numer denom (2 ^ 34) positive (by omega)
  next large =>
    have interval := roundedQuotient_ceil numer denom (2 ^ 32) positive (by omega)
    omega

theorem ceil_timebase_le (numer denom bound : Nat) (positive : 1 ≤ denom)
    (ratio : numer ≤ bound * denom) : ⌈(numer : ℚ) / denom⌉₊ ≤ bound := by
  have divisor : (0 : ℚ) < denom := by exact_mod_cast positive
  rw [Nat.ceil_le, div_le_iff₀ divisor]
  exact_mod_cast ratio

theorem ceil_timebase_pos (numer denom : Nat) (numerPositive : 1 ≤ numer)
    (denomPositive : 1 ≤ denom) : 0 < ⌈(numer : ℚ) / denom⌉₊ := by
  rw [Nat.ceil_pos]
  have numerCast : (0 : ℚ) < numer := by exact_mod_cast numerPositive
  have denomCast : (0 : ℚ) < denom := by exact_mod_cast denomPositive
  positivity

theorem resolution_exact (numer denom : UInt32) (timebase : Timebase numer denom)
    (ratio : numer.toNat ≤ (2 ^ 30 - 1) * denom.toNat) :
    (machMultOf numer denom).toNat + (2 ^ 34 - 1) < 2 ^ 64 ∧
      ((machMultOf numer denom + (nullScale - 1)) >>> UInt64.ofNat highShift).toNat =
        ⌈(numer.toNat : ℚ) / denom.toNat⌉₊ := by
  have denomBound := denom.toNat_lt
  have value := (machMultOf_exact numer denom timebase).value
  obtain ⟨lower, upper⟩ := exactMult_ceil numer.toNat denom.toNat timebase.denomPositive denomBound
  have ceiling := ceil_timebase_le numer.toNat denom.toNat _ timebase.denomPositive ratio
  rw [← value] at lower upper
  have fits : (machMultOf numer denom).toNat + (2 ^ 34 - 1) < 2 ^ 64 := by
    generalize ⌈(numer.toNat : ℚ) / denom.toNat⌉₊ = resolution at upper ceiling
    omega
  have scale : (nullScale - 1).toNat = 2 ^ 34 - 1 := rfl
  have shift : (UInt64.ofNat highShift).toNat % 64 = 34 := rfl
  refine ⟨fits, ?_⟩
  rw [UInt64.toNat_shiftRight, UInt64.toNat_add, scale, shift, Nat.mod_eq_of_lt fits,
    Nat.shiftRight_eq_div_pow]
  exact ceil_of_interval (2 ^ 34) _ _ (by decide) lower upper

theorem clockGetres_ceiling (build : Build) (numer denom : UInt32)
    (timebase : Timebase numer denom) (ratio : numer.toNat ≤ (2 ^ 30 - 1) * denom.toNat) :
    MultExact numer.toNat denom.toNat (machMultOf numer denom) ∧
      (machMultOf numer denom).toNat + (2 ^ 34 - 1) < 2 ^ 64 ∧
      (setupMachMult build.abi (some (numer, denom)) .initial).2.resNsec =
        ⌈(numer.toNat : ℚ) / denom.toNat⌉₊ ∧
      ∀ mach clk, MachReached build.abi (some (numer, denom)) mach →
        clk.hasMachResolution build →
        (clockGetres build (some (numer, denom)) mach clk).value =
          (0, some { sec := 0, nsec := ⌈(numer.toNat : ℚ) / denom.toNat⌉₊ }) := by
  obtain ⟨fits, ceiling⟩ := resolution_exact numer denom timebase ratio
  have bound := ceil_timebase_le numer.toNat denom.toNat _ timebase.denomPositive ratio
  have positive := ceil_timebase_pos numer.toNat denom.toNat timebase.numerPositive
    timebase.denomPositive
  have nonzero : numer ≠ 0 := by
    intro zero
    have numerPositive := timebase.numerPositive
    rw [zero] at numerPositive
    exact absurd numerPositive (by decide)
  have resolution : (setupMachMult build.abi (some (numer, denom)) .initial).2.resNsec =
      ⌈(numer.toNat : ℚ) / denom.toNat⌉₊ := by
    change build.abi.long
      ((machMultOf numer denom + (nullScale - 1)) >>> UInt64.ofNat highShift).toNat = _
    rw [ceiling]
    apply long_of_isLong
    cases build.abi with
    | ilp32 => simp only [isLong_ilp32]; omega
    | lp64 => simp only [isLong_lp64]; omega
  refine ⟨machMultOf_exact numer denom timebase, fits, resolution, ?_⟩
  intro mach clk reached machBased
  have cached := machReached_cached build.abi numer denom nonzero mach reached
  have supported : clk ≠ .unsupported := by
    intro unsupported
    rw [unsupported] at machBased
    cases machBased
  unfold clockGetres
  by_cases empty : mach.resNsec = 0
  · rw [if_pos empty, setupMachMult_cached build.abi numer denom mach nonzero cached]
    simp only [if_neg supported, if_pos machBased, resolution]
  · rcases cached.mult with ⟨-, unset⟩ | full
    · exact absurd unset empty
    · rw [if_neg empty]
      simp only [if_neg supported, if_pos machBased, full, resolution]

theorem clockGetres_ceiling_powerpc :
    (clockGetres ⟨.ilp32, false⟩ (some (1000000000, 33333333)) .initial .uptimeRaw).value =
      (0, some { sec := 0, nsec := ⌈((1000000000 : UInt32).toNat : ℚ) /
        (33333333 : UInt32).toNat⌉₊ }) :=
  (clockGetres_ceiling ⟨.ilp32, false⟩ 1000000000 33333333 ⟨by decide, by decide, by decide⟩
    (by decide)).2.2.2 .initial .uptimeRaw .initial rfl

end LegacySupport.Time
