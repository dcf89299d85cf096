import LegacySupport.CInt

/-!
The allocation of `posix_memalign_emulation.c`. It knows two alignments only, that of `malloc` and
that of a page.
-/

namespace LegacySupport.PosixMemalign

open CInt

def einval : Nat := 22
def enomem : Nat := 12

/-! ## The code -/

abbrev Word (abi : Abi) := Fin abi.sizeMod

def sizeofPointer (abi : Abi) : Nat := abi.bits / 8

/-- What the allocators return for a number of bytes. Pages have 4096 bytes or more. -/
structure Allocator (abi : Abi) where
  pageShift : Nat
  malloc : Word abi → Word abi
  valloc : Word abi → Word abi
  pages : 12 ≤ pageShift
  malloc_aligned : ∀ bytes, 16 ∣ (malloc bytes).val
  valloc_aligned : ∀ bytes, 2 ^ pageShift ∣ (valloc bytes).val

variable {abi : Abi}

def posixMemalign (allocator : Allocator abi) (pp alignment bytes : Word abi) : Nat × Word abi :=
  if alignment.val < sizeofPointer abi ∨
      0 ≠ alignment.val &&& abi.sizeT (alignment.val - 1) then (einval, pp)
  else
    let mem :=
      if alignment.val ≤ 16 then allocator.malloc bytes else allocator.valloc bytes
    if mem.val = 0 then (enomem, pp) else (0, mem)

/-! ## Alignments -/

def Invalid (alignment : Word abi) : Prop :=
  alignment.val < sizeofPointer abi ∨ ¬ alignment.val.isPowerOfTwo

theorem sizeofPointer_pos (abi : Abi) : 0 < sizeofPointer abi := by cases abi <;> decide

theorem invalid_iff (alignment : Word abi) :
    (alignment.val < sizeofPointer abi ∨
      0 ≠ alignment.val &&& abi.sizeT (alignment.val - 1)) ↔ Invalid alignment := by
  refine or_congr_right' fun large => ?_
  have positive := sizeofPointer_pos abi
  have before : abi.sizeT (alignment.val - 1) = alignment.val - 1 := by
    have bound := alignment.isLt
    have natural : ((alignment.val - 1 : Nat) : Int) = alignment.val - 1 := by omega
    rw [← natural]
    exact sizeT_of_lt (by omega)
  rw [before, ← Nat.and_sub_one_eq_zero_iff_isPowerOfTwo (by omega)]
  exact not_congr eq_comm

theorem power_dvd_power {alignment power : Nat} (first : alignment.isPowerOfTwo)
    (second : power.isPowerOfTwo) (smaller : alignment ≤ power) : alignment ∣ power := by
  obtain ⟨exponent, rfl⟩ := first
  obtain ⟨larger, rfl⟩ := second
  exact Nat.pow_dvd_pow 2 ((Nat.pow_le_pow_iff_right (by decide)).mp smaller)

/-! ## The result -/

structure Conforms (allocator : Allocator abi) (pp alignment bytes : Word abi) : Prop where
  refused : (posixMemalign allocator pp alignment bytes).1 = einval ↔ Invalid alignment
  kept : (posixMemalign allocator pp alignment bytes).1 ≠ 0 →
    (posixMemalign allocator pp alignment bytes).2 = pp
  aligned : (posixMemalign allocator pp alignment bytes).1 = 0 →
    alignment.val ∣ (posixMemalign allocator pp alignment bytes).2.val

/-- The pages that are found happen to start at a multiple of the alignment, or there are none. -/
def Fortunate (allocator : Allocator abi) (alignment bytes : Word abi) : Prop :=
  (allocator.valloc bytes).val = 0 ∨ alignment.val ∣ (allocator.valloc bytes).val

variable {allocator : Allocator abi} {pp alignment bytes : Word abi}

theorem posixMemalign_invalid (invalid : Invalid alignment) :
    posixMemalign allocator pp alignment bytes = (einval, pp) := by
  rw [posixMemalign, if_pos ((invalid_iff alignment).mpr invalid)]

theorem posixMemalign_small (valid : ¬ Invalid alignment) (small : alignment.val ≤ 16) :
    posixMemalign allocator pp alignment bytes =
      if (allocator.malloc bytes).val = 0 then (enomem, pp) else (0, allocator.malloc bytes) := by
  rw [posixMemalign, if_neg (mt (invalid_iff alignment).mp valid)]
  simp only [if_pos small]

theorem posixMemalign_large (valid : ¬ Invalid alignment) (large : 16 < alignment.val) :
    posixMemalign allocator pp alignment bytes =
      if (allocator.valloc bytes).val = 0 then (enomem, pp) else (0, allocator.valloc bytes) := by
  rw [posixMemalign, if_neg (mt (invalid_iff alignment).mp valid)]
  simp only [if_neg (Nat.not_le.mpr large)]

theorem enomem_ne_einval : enomem ≠ einval := by decide

theorem zero_ne_einval : 0 ≠ einval := by decide

theorem conforms_invalid (invalid : Invalid alignment) :
    Conforms allocator pp alignment bytes := by
  constructor
  · rw [posixMemalign_invalid invalid]
    exact iff_of_true rfl invalid
  · rw [posixMemalign_invalid invalid]
    exact fun _ => rfl
  · rw [posixMemalign_invalid invalid]
    exact fun succeeded => by cases succeeded

theorem conforms_valid_iff (valid : ¬ Invalid alignment) {mem : Word abi}
    (result : posixMemalign allocator pp alignment bytes =
      if mem.val = 0 then (enomem, pp) else (0, mem)) :
    Conforms allocator pp alignment bytes ↔ mem.val = 0 ∨ alignment.val ∣ mem.val := by
  by_cases null : mem.val = 0
  · rw [if_pos null] at result
    refine iff_of_true ⟨?_, ?_, ?_⟩ (Or.inl null)
    · rw [result]
      exact iff_of_false enomem_ne_einval valid
    · rw [result]
      exact fun _ => rfl
    · rw [result]
      exact fun succeeded => by cases succeeded
  · rw [if_neg null] at result
    constructor
    · intro conforms
      have aligned := conforms.aligned
      rw [result] at aligned
      exact Or.inr (aligned rfl)
    · intro either
      refine ⟨?_, ?_, ?_⟩
      · rw [result]
        exact iff_of_false zero_ne_einval valid
      · rw [result]
        exact fun failed => absurd rfl failed
      · rw [result]
        exact fun _ => either.resolve_left null

theorem conforms_iff : Conforms allocator pp alignment bytes ↔
    Invalid alignment ∨ alignment.val ≤ 2 ^ allocator.pageShift ∨
      Fortunate allocator alignment bytes := by
  have pages : 2 ^ 12 ≤ 2 ^ allocator.pageShift := Nat.pow_le_pow_right (by decide) allocator.pages
  by_cases invalid : Invalid alignment
  · exact iff_of_true (conforms_invalid invalid) (Or.inl invalid)
  have power : alignment.val.isPowerOfTwo := by
    by_contra other
    exact invalid (Or.inr other)
  rw [or_iff_right invalid]
  by_cases small : alignment.val ≤ 16
  · rw [conforms_valid_iff invalid (posixMemalign_small invalid small)]
    have sixteen : alignment.val ∣ 16 := power_dvd_power power ⟨4, rfl⟩ small
    exact iff_of_true (Or.inr (sixteen.trans (allocator.malloc_aligned bytes)))
      (Or.inl (by omega))
  · rw [conforms_valid_iff invalid (posixMemalign_large invalid (by omega))]
    refine ⟨Or.inr, ?_⟩
    rintro (within | fortunate)
    · exact Or.inr ((power_dvd_power power ⟨allocator.pageShift, rfl⟩ within).trans
        (allocator.valloc_aligned bytes))
    · exact fortunate

def secondPage (abi : Abi) (pageShift : Nat) (pages : 12 ≤ pageShift)
    (fits : 2 ^ pageShift < abi.sizeMod) : Allocator abi where
  pageShift := pageShift
  malloc _ := ⟨2 ^ pageShift, fits⟩
  valloc _ := ⟨2 ^ pageShift, fits⟩
  pages := pages
  malloc_aligned _ := Nat.pow_dvd_pow 2 (show 4 ≤ pageShift by omega)
  valloc_aligned _ := Nat.dvd_refl _

/-- A call conforms unless its alignment is beyond a page and is missed by the page it gets; and
whatever the allocators return, the alignments that are refused or within a page are safe, and no
others. -/
theorem posixMemalign_conforms_iff (alignment : Word abi) :
    (∀ (allocator : Allocator abi) (pp bytes : Word abi),
      Conforms allocator pp alignment bytes ↔
        Invalid alignment ∨ alignment.val ≤ 2 ^ allocator.pageShift ∨
          Fortunate allocator alignment bytes) ∧
      ∀ pageShift, 12 ≤ pageShift →
        ((∀ allocator : Allocator abi, allocator.pageShift = pageShift →
            ∀ pp bytes, Conforms allocator pp alignment bytes) ↔
          Invalid alignment ∨ alignment.val ≤ 2 ^ pageShift) := by
  refine ⟨fun allocator pp bytes => conforms_iff, fun pageShift pages => ⟨?_, ?_⟩⟩
  · intro always
    by_contra neither
    rw [not_or, Nat.not_le] at neither
    obtain ⟨valid, beyond⟩ := neither
    have fits := beyond.trans alignment.isLt
    have conforms := always (secondPage abi pageShift pages fits) rfl alignment alignment
    rcases conforms_iff.mp conforms with invalid | within | null | aligned
    · exact valid invalid
    · exact absurd within (Nat.not_le.mpr beyond)
    · exact absurd null (Nat.ne_of_gt (Nat.two_pow_pos pageShift))
    · exact absurd (Nat.le_of_dvd (Nat.two_pow_pos pageShift) aligned) (Nat.not_le.mpr beyond)
  · rintro safe allocator rfl pp bytes
    exact conforms_iff.mpr (safe.imp_right Or.inl)

def oddPage : Allocator .lp64 where
  pageShift := 12
  malloc _ := ⟨0x100001000, by decide⟩
  valloc _ := ⟨0x100001000, by decide⟩
  pages := by decide
  malloc_aligned _ := by decide
  valloc_aligned _ := by decide

theorem posixMemalign_misaligns :
    ¬ ∀ (abi : Abi) (allocator : Allocator abi) (pp alignment bytes : Word abi),
      Conforms allocator pp alignment bytes := by
  intro always
  have aligned := (always .lp64 oddPage ⟨0, by decide⟩ ⟨8192, by decide⟩ ⟨8192, by decide⟩).aligned
  revert aligned
  decide

end LegacySupport.PosixMemalign
