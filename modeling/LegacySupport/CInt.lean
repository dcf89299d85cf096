import Mathlib

/-!
Integer conversions of C. Values are integers; a conversion reduces a value to
the range of its target type, in two's complement.
-/

namespace CInt

def toUnsigned (bits : Nat) (value : Int) : Nat := (value % 2 ^ bits).toNat

def toSigned (bits : Nat) (value : Int) : Int :=
  (value + 2 ^ (bits - 1)) % 2 ^ bits - 2 ^ (bits - 1)

theorem toSigned_toUnsigned {bits : Nat} (positive : 0 < bits) {value : Int}
    (lower : -2 ^ (bits - 1) ≤ value) (upper : value < 2 ^ (bits - 1)) :
    toSigned bits (toUnsigned bits value) = value := by
  have double : (2 : Int) ^ bits = 2 * 2 ^ (bits - 1) := by
    rw [← pow_succ', Nat.sub_add_cancel positive]
  have half : (0 : Int) < 2 ^ (bits - 1) := by positivity
  have nonneg : 0 ≤ value % 2 ^ bits := Int.emod_nonneg _ (by omega)
  rw [toSigned, toUnsigned, Int.toNat_of_nonneg nonneg, Int.emod_add_emod,
    Int.emod_eq_of_lt (by omega) (by omega)]
  omega

theorem toSigned_range (bits : Nat) (positive : 0 < bits) (value : Int) :
    -2 ^ (bits - 1) ≤ toSigned bits value ∧ toSigned bits value < 2 ^ (bits - 1) := by
  have double : (2 : Int) ^ bits = 2 * 2 ^ (bits - 1) := by
    rw [← pow_succ', Nat.sub_add_cancel positive]
  have half : (0 : Int) < 2 ^ (bits - 1) := by positivity
  have nonneg := Int.emod_nonneg (value + 2 ^ (bits - 1)) (show (2 : Int) ^ bits ≠ 0 by omega)
  have below := Int.emod_lt_of_pos (value + 2 ^ (bits - 1)) (show (0 : Int) < 2 ^ bits by omega)
  simp only [toSigned]
  omega

/-- The data models: `long`, pointers and `size_t` have 32 or 64 bits, `int` has 32. -/
inductive Abi
  | ilp32
  | lp64
  deriving DecidableEq, Repr

def Abi.bits : Abi → Nat
  | .ilp32 => 32
  | .lp64 => 64

def Abi.sizeMod (abi : Abi) : Nat := 2 ^ abi.bits

def Abi.sizeT (abi : Abi) (value : Int) : Nat := toUnsigned abi.bits value

def Abi.long (abi : Abi) (value : Int) : Int := toSigned abi.bits value

def int (value : Int) : Int := toSigned 32 value

def int64 (value : Int) : Int := toSigned 64 value

def Abi.IsLong (abi : Abi) (value : Int) : Prop :=
  -2 ^ (abi.bits - 1) ≤ value ∧ value < 2 ^ (abi.bits - 1)

instance (abi : Abi) (value : Int) : Decidable (abi.IsLong value) :=
  inferInstanceAs (Decidable (_ ∧ _))

@[simp] theorem sizeMod_ilp32 : Abi.ilp32.sizeMod = 4294967296 := rfl

@[simp] theorem sizeMod_lp64 : Abi.lp64.sizeMod = 18446744073709551616 := rfl

@[simp] theorem sizeT_ilp32 (value : Int) :
    Abi.ilp32.sizeT value = (value % 4294967296).toNat := rfl

@[simp] theorem sizeT_lp64 (value : Int) :
    Abi.lp64.sizeT value = (value % 18446744073709551616).toNat := rfl

@[simp] theorem long_ilp32 (value : Int) :
    Abi.ilp32.long value = (value + 2147483648) % 4294967296 - 2147483648 := rfl

@[simp] theorem long_lp64 (value : Int) :
    Abi.lp64.long value =
      (value + 9223372036854775808) % 18446744073709551616 - 9223372036854775808 := rfl

theorem int_eq (value : Int) :
    int value = (value + 2147483648) % 4294967296 - 2147483648 := rfl

theorem int64_eq (value : Int) :
    int64 value =
      (value + 9223372036854775808) % 18446744073709551616 - 9223372036854775808 := rfl

@[simp] theorem isLong_ilp32 (value : Int) :
    Abi.ilp32.IsLong value ↔ -2147483648 ≤ value ∧ value < 2147483648 := Iff.rfl

@[simp] theorem isLong_lp64 (value : Int) :
    Abi.lp64.IsLong value ↔ -9223372036854775808 ≤ value ∧ value < 9223372036854775808 :=
  Iff.rfl

theorem sizeT_lt (abi : Abi) (value : Int) : abi.sizeT value < abi.sizeMod := by
  cases abi <;> simp <;> omega

theorem long_of_isLong {abi : Abi} {value : Int} (fits : abi.IsLong value) :
    abi.long value = value := by
  cases abi <;> simp at fits ⊢ <;> omega

theorem sizeT_of_lt {abi : Abi} {value : Nat} (fits : value < abi.sizeMod) :
    abi.sizeT value = value := by
  cases abi <;> simp at fits ⊢ <;> omega

end CInt

theorem Int64.toNat_toUInt64_eq (value : Int64) :
    value.toUInt64.toNat = (value.toInt % 2 ^ 64).toNat := by
  have signed : value.toInt = value.toUInt64.toBitVec.toInt := rfl
  have bound : value.toUInt64.toBitVec.toNat < 2 ^ 64 := value.toUInt64.toBitVec.isLt
  change value.toUInt64.toBitVec.toNat = _
  rw [signed, BitVec.toInt_eq_toNat_cond]
  split <;> omega
