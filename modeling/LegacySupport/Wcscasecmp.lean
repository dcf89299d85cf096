import LegacySupport.CInt

/-!
The comparisons of `wcscasecmp_family.c`. They subtract two lowered characters, and the
difference of two 32-bit characters need not be an `int`.
-/

namespace LegacySupport.Wcscasecmp

open CInt

/-! ## The code -/

/-- `_MP_WCDIFFSIGN` where no character exceeds `INT_MAX`. The subtraction wraps. -/
def wcdiffsign (a b : Int32) : Int32 := a - b

/-- The loop from a position on: every round takes one from `n`, or leaves none, so `n` rounds
suffice. -/
def wcsncasecmpLoop (lower : Int32 → Int32) (l r : Nat → Int32) :
    Nat → Nat → Nat → Int32 → Int32
  | 0, _, _, d => d
  | rounds + 1, position, n, d =>
      if d ≠ 0 ∨ n = 0 then d
      else
        let lc := l position
        let rc := r position
        let n := if lc = 0 ∨ rc = 0 then 0 else n - 1
        if lc = rc then wcsncasecmpLoop lower l r rounds (position + 1) n d
        else wcsncasecmpLoop lower l r rounds (position + 1) n (wcdiffsign (lower lc) (lower rc))

variable {Locale : Type} (towlowerL : Int32 → Option Locale → Int32)

def wcsncasecmpL (l r : Nat → Int32) (n : Nat) (locale : Option Locale) : Int32 :=
  wcsncasecmpLoop (towlowerL · locale) l r n 0 n 0

def wcsncasecmp (l r : Nat → Int32) (n : Nat) : Int32 := wcsncasecmpL towlowerL l r n none

def wcscasecmpL (abi : Abi) (l r : Nat → Int32) (locale : Option Locale) : Int32 :=
  wcsncasecmpL towlowerL l r (abi.sizeT (-1)) locale

def wcscasecmp (abi : Abi) (l r : Nat → Int32) : Int32 :=
  wcsncasecmpL towlowerL l r (abi.sizeT (-1)) none

/-! ## Strings -/

structure WideString (abi : Abi) where
  memory : Nat → Int32
  length : Nat
  terminated : memory length = 0
  nonzero : ∀ i < length, memory i ≠ 0
  fits : 4 * (length + 1) < abi.sizeMod

def KeepsNul (lower : Int32 → Int32) : Prop := ∀ c, lower c = 0 ↔ c = 0

/-- At most `count` characters from a position on, lowered. The NUL that ends a string is its
last character. -/
def lowered (lower : Int32 → Int32) (memory : Nat → Int32) : Nat → Nat → List Int
  | _, 0 => []
  | position, count + 1 =>
      (lower (memory position)).toInt ::
        if memory position = 0 then [] else lowered lower memory (position + 1) count

def firstDifference : List Int → List Int → Int
  | a :: as, b :: bs => if a = b then firstDifference as bs else a - b
  | _, _ => 0

def DifferenceFits (lower : Int32 → Int32) (l r : Nat → Int32) (n : Nat) : Prop :=
  -2 ^ 31 ≤ firstDifference (lowered lower l 0 n) (lowered lower r 0 n) ∧
    firstDifference (lowered lower l 0 n) (lowered lower r 0 n) < 2 ^ 31

/-! ## The loop -/

theorem wcsncasecmpLoop_done (lower : Int32 → Int32) (l r : Nat → Int32) {rounds position n : Nat}
    {d : Int32} (done : d ≠ 0 ∨ n = 0) : wcsncasecmpLoop lower l r rounds position n d = d := by
  cases rounds with
  | zero => rfl
  | succ rounds => rw [wcsncasecmpLoop, if_pos done]

theorem wcdiffsign_toInt (a b : Int32) : (wcdiffsign a b).toInt = int (a.toInt - b.toInt) := by
  rw [wcdiffsign, Int32.toInt_sub, Int.bmod_def, int_eq]
  split <;> omega

theorem wcdiffsign_eq_zero (a b : Int32) : wcdiffsign a b = 0 ↔ a = b := by
  have left := a.toInt_lt
  have left' := a.le_toInt
  have right := b.toInt_lt
  have right' := b.le_toInt
  have zero : (0 : Int32).toInt = 0 := rfl
  rw [← Int32.toInt_inj, ← Int32.toInt_inj, wcdiffsign_toInt, zero, int_eq]
  omega

@[simp] theorem firstDifference_nil_left (bs : List Int) : firstDifference [] bs = 0 := rfl

@[simp] theorem firstDifference_nil_right (as : List Int) : firstDifference as [] = 0 := by
  cases as <;> rfl

variable {lower : Int32 → Int32} {l r : Nat → Int32} {position : Nat}

theorem ends_together (keepsNul : KeepsNul lower)
    (alike : lower (l position) = lower (r position)) : l position = 0 ↔ r position = 0 := by
  rw [← keepsNul (l position), ← keepsNul (r position), alike]

theorem firstDifference_alike (keepsNul : KeepsNul lower) (count : Nat)
    (alike : lower (l position) = lower (r position)) :
    firstDifference (lowered lower l position (count + 1)) (lowered lower r position (count + 1)) =
      if r position = 0 then 0
      else firstDifference (lowered lower l (position + 1) count)
        (lowered lower r (position + 1) count) := by
  have together := ends_together keepsNul alike
  rw [lowered, lowered, firstDifference, alike, if_pos rfl]
  by_cases ends : r position = 0
  · rw [if_pos ends, if_pos ends, firstDifference_nil_right]
  · rw [if_neg ends, if_neg ends, if_neg (mt together.mp ends)]

theorem firstDifference_differ (count : Nat) (differ : lower (l position) ≠ lower (r position)) :
    firstDifference (lowered lower l position (count + 1)) (lowered lower r position (count + 1)) =
      (lower (l position)).toInt - (lower (r position)).toInt := by
  rw [lowered, lowered, firstDifference, if_neg fun equal => differ (Int32.toInt_inj.mp equal)]

variable (l r)

theorem wcsncasecmpLoop_toInt (keepsNul : KeepsNul lower) (n : Nat) : ∀ position,
    (wcsncasecmpLoop lower l r n position n 0).toInt =
      int (firstDifference (lowered lower l position n) (lowered lower r position n)) := by
  induction n with
  | zero =>
      intro position
      rfl
  | succ n ih =>
      intro position
      have first : ¬ ((0 : Int32) ≠ 0 ∨ n + 1 = 0) := by simp
      rw [wcsncasecmpLoop, if_neg first]
      dsimp only
      rw [Nat.add_sub_cancel]
      by_cases alike : lower (l position) = lower (r position)
      · have together := ends_together keepsNul alike
        have none : wcdiffsign (lower (l position)) (lower (r position)) = 0 :=
          (wcdiffsign_eq_zero _ _).mpr alike
        rw [none, ite_self, firstDifference_alike keepsNul n alike]
        by_cases ends : r position = 0
        · rw [if_pos (Or.inr ends), if_pos ends, wcsncasecmpLoop_done lower l r (Or.inr rfl)]
          rfl
        · have both : ¬ (l position = 0 ∨ r position = 0) := by
            rintro (left | right)
            · exact ends (together.mp left)
            · exact ends right
          rw [if_neg both, if_neg ends]
          exact ih (position + 1)
      · have nonzero : wcdiffsign (lower (l position)) (lower (r position)) ≠ 0 :=
          mt (wcdiffsign_eq_zero _ _).mp alike
        have same : l position ≠ r position := fun same => alike (by rw [same])
        rw [if_neg same, wcsncasecmpLoop_done lower l r (Or.inl nonzero), wcdiffsign_toInt,
          firstDifference_differ n alike]

/-! ## Comparing -/

theorem firstDifference_range (keepsNul : KeepsNul lower) (n : Nat) : ∀ position,
    -2 ^ 32 < firstDifference (lowered lower l position n) (lowered lower r position n) ∧
      firstDifference (lowered lower l position n) (lowered lower r position n) < 2 ^ 32 := by
  induction n with
  | zero =>
      intro position
      constructor <;> simp only [lowered, firstDifference_nil_left] <;> omega
  | succ n ih =>
      intro position
      by_cases alike : lower (l position) = lower (r position)
      · rw [firstDifference_alike keepsNul n alike]
        split
        · omega
        · exact ih (position + 1)
      · have left := (lower (l position)).toInt_lt
        have left' := (lower (l position)).le_toInt
        have right := (lower (r position)).toInt_lt
        have right' := (lower (r position)).le_toInt
        rw [firstDifference_differ n alike]
        omega

/-- The first difference decides the order, since no string ends where the other goes on alike. -/
theorem compare_lowered (keepsNul : KeepsNul lower) (n : Nat) : ∀ position,
    compare (lowered lower l position n) (lowered lower r position n) =
      compare (firstDifference (lowered lower l position n) (lowered lower r position n)) 0 := by
  induction n with
  | zero =>
      intro position
      rfl
  | succ n ih =>
      intro position
      by_cases alike : lower (l position) = lower (r position)
      · have together := ends_together keepsNul alike
        have itself : compare (lower (r position)).toInt (lower (r position)).toInt = .eq :=
          Std.ReflCmp.compare_self
        rw [firstDifference_alike keepsNul n alike, lowered, lowered, List.compare_cons_cons, alike,
          itself]
        by_cases ends : r position = 0
        · rw [if_pos ends, if_pos ends, if_pos (together.mpr ends)]
          rfl
        · rw [if_neg ends, if_neg ends, if_neg (mt together.mp ends)]
          exact ih (position + 1)
      · have differ : (lower (l position)).toInt ≠ (lower (r position)).toInt :=
          fun equal => alike (Int32.toInt_inj.mp equal)
        rw [firstDifference_differ n alike, lowered, lowered, List.compare_cons_cons]
        generalize (lower (l position)).toInt = a at differ ⊢
        generalize (lower (r position)).toInt = b at differ ⊢
        rcases Int.lt_or_gt_of_ne differ with below | above
        · have negative : compare (a - b) 0 = .lt := Int.compare_eq_lt.mpr (by omega)
          rw [Int.compare_eq_lt.mpr below, negative]
          rfl
        · have positive : compare (a - b) 0 = .gt := Int.compare_eq_gt.mpr (by omega)
          rw [Int.compare_eq_gt.mpr above, positive]
          rfl

theorem wcsncasecmpL_toInt {Locale : Type} (towlowerL : Int32 → Option Locale → Int32)
    {locale : Option Locale} (keepsNul : KeepsNul (towlowerL · locale)) (n : Nat) :
    (wcsncasecmpL towlowerL l r n locale).toInt =
      int (firstDifference (lowered (towlowerL · locale) l 0 n)
        (lowered (towlowerL · locale) r 0 n)) :=
  wcsncasecmpLoop_toInt l r keepsNul n 0

theorem compare_int_iff {difference : Int} (range : -2 ^ 32 < difference ∧ difference < 2 ^ 32) :
    compare (int difference) 0 = compare difference 0 ↔
      -2 ^ 31 ≤ difference ∧ difference < 2 ^ 31 := by
  rw [int_eq]
  rcases Int.lt_trichotomy difference 0 with below | zero | above
  · rw [Int.compare_eq_lt.mpr below, Int.compare_eq_lt]
    omega
  · subst zero
    exact iff_of_true rfl (by omega)
  · rw [Int.compare_eq_gt.mpr above, Int.compare_eq_gt]
    omega

variable {l r}

theorem lowered_whole {memory : Nat → Int32} {length : Nat} (ends : memory length = 0) :
    ∀ (rest : Nat) (position : Nat), position + rest = length → ∀ count other : Nat,
      rest < count → rest < other →
      lowered lower memory position count = lowered lower memory position other := by
  intro rest
  induction rest with
  | zero =>
      intro position here count other more more'
      obtain ⟨count, rfl⟩ := Nat.exists_eq_succ_of_ne_zero (Nat.ne_of_gt more)
      obtain ⟨other, rfl⟩ := Nat.exists_eq_succ_of_ne_zero (Nat.ne_of_gt more')
      rw [Nat.add_zero] at here
      rw [lowered, lowered, here, if_pos ends, if_pos ends]
  | succ rest ih =>
      intro position here count other more more'
      obtain ⟨count, rfl⟩ := Nat.exists_eq_succ_of_ne_zero (Nat.ne_of_gt (Nat.zero_lt_of_lt more))
      obtain ⟨other, rfl⟩ := Nat.exists_eq_succ_of_ne_zero (Nat.ne_of_gt (Nat.zero_lt_of_lt more'))
      rw [lowered, lowered, ih (position + 1) (by omega) count other (by omega) (by omega)]

/-! ## The order of strings -/

def SignAgrees {Locale : Type} (towlowerL : Int32 → Option Locale → Int32) (locale : Option Locale)
    (l r : Nat → Int32) (n : Nat) : Prop :=
  compare (wcsncasecmpL towlowerL l r n locale).toInt 0 =
    compare (lowered (towlowerL · locale) l 0 n) (lowered (towlowerL · locale) r 0 n)

section Order

variable {Locale : Type} {towlowerL : Int32 → Option Locale → Int32} {locale : Option Locale}
  (keepsNul : KeepsNul (towlowerL · locale))
include keepsNul

theorem signAgrees_iff (l r : Nat → Int32) (n : Nat) :
    SignAgrees towlowerL locale l r n ↔ DifferenceFits (towlowerL · locale) l r n := by
  rw [SignAgrees, wcsncasecmpL_toInt l r towlowerL keepsNul, compare_lowered l r keepsNul n 0]
  exact compare_int_iff (firstDifference_range l r keepsNul n 0)

theorem wcsncasecmpL_eq_zero_iff (l r : Nat → Int32) (n : Nat) :
    wcsncasecmpL towlowerL l r n locale = 0 ↔
      lowered (towlowerL · locale) l 0 n = lowered (towlowerL · locale) r 0 n := by
  have range := firstDifference_range l r keepsNul n 0
  have order := compare_lowered l r keepsNul n 0
  have zero : (0 : Int32).toInt = 0 := rfl
  have equal : lowered (towlowerL · locale) l 0 n = lowered (towlowerL · locale) r 0 n ↔
      firstDifference (lowered (towlowerL · locale) l 0 n)
        (lowered (towlowerL · locale) r 0 n) = 0 := by
    rw [← Std.LawfulEqOrd.compare_eq_iff_eq, order, Int.compare_eq_eq]
  rw [equal, ← Int32.toInt_inj, wcsncasecmpL_toInt l r towlowerL keepsNul, zero, int_eq]
  omega

theorem wcscasecmpL_agrees {abi : Abi} (l r : WideString abi) {n : Nat} (left : l.length < n)
    (right : r.length < n) :
    wcscasecmpL towlowerL abi l.memory r.memory locale =
      wcsncasecmpL towlowerL l.memory r.memory n locale := by
  have fitsLeft := l.fits
  have fitsRight := r.fits
  have whole : abi.sizeT (-1) = abi.sizeMod - 1 := by cases abi <;> rfl
  rw [wcscasecmpL, ← Int32.toInt_inj, wcsncasecmpL_toInt _ _ towlowerL keepsNul,
    wcsncasecmpL_toInt _ _ towlowerL keepsNul,
    lowered_whole l.terminated l.length 0 (Nat.zero_add _) _ n (by omega) left,
    lowered_whole r.terminated r.length 0 (Nat.zero_add _) _ n (by omega) right]

theorem wcsncasecmpL_swap {l r : Nat → Int32} {n : Nat}
    (fits : DifferenceFits (towlowerL · locale) l r n)
    (fitsBack : DifferenceFits (towlowerL · locale) r l n) :
    compare (wcsncasecmpL towlowerL l r n locale).toInt 0 =
      (compare (wcsncasecmpL towlowerL r l n locale).toInt 0).swap := by
  have there := (signAgrees_iff keepsNul l r n).mpr fits
  have back := (signAgrees_iff keepsNul r l n).mpr fitsBack
  rw [SignAgrees] at there back
  rw [there, back]
  exact Std.OrientedCmp.eq_swap

theorem wcsncasecmpL_trans {l m r : Nat → Int32} {n : Nat}
    (first : DifferenceFits (towlowerL · locale) l m n)
    (second : DifferenceFits (towlowerL · locale) m r n)
    (both : DifferenceFits (towlowerL · locale) l r n)
    (below : (wcsncasecmpL towlowerL l m n locale).toInt ≤ 0)
    (above : (wcsncasecmpL towlowerL m r n locale).toInt ≤ 0) :
    (wcsncasecmpL towlowerL l r n locale).toInt ≤ 0 := by
  have order : ∀ value : Int, (compare value 0).isLE ↔ value ≤ 0 := by
    intro value
    exact Int.isLE_compare
  have one := (signAgrees_iff keepsNul l m n).mpr first
  have two := (signAgrees_iff keepsNul m r n).mpr second
  have three := (signAgrees_iff keepsNul l r n).mpr both
  rw [SignAgrees] at one two three
  rw [← order] at below above ⊢
  rw [one] at below
  rw [two] at above
  rw [three]
  exact Std.TransCmp.isLE_trans below above

end Order

def unterminated (lower : Int32 → Int32) (memory : Nat → Int32) : Nat → Nat → List Int
  | _, 0 => []
  | position, count + 1 =>
      if memory position = 0 then []
      else (lower (memory position)).toInt :: unterminated lower memory (position + 1) count

theorem compare_unterminated {lower : Int32 → Int32} (keepsNul : KeepsNul lower)
    {l r : Nat → Int32} (left : ∀ i, 0 ≤ (lower (l i)).toInt)
    (right : ∀ i, 0 ≤ (lower (r i)).toInt) (n : Nat) : ∀ position,
    compare (lowered lower l position n) (lowered lower r position n) =
      compare (unterminated lower l position n) (unterminated lower r position n) := by
  have nul : (lower 0).toInt = 0 := by
    rw [(keepsNul 0).mpr rfl]
    rfl
  have positive : ∀ c, c ≠ 0 → 0 ≤ (lower c).toInt → 0 < (lower c).toInt := by
    intro c nonzero nonneg
    have differs : (lower c).toInt ≠ 0 := by
      intro zero
      exact nonzero ((keepsNul c).mp (Int32.toInt_inj.mp zero))
    omega
  induction n with
  | zero =>
      intro position
      rfl
  | succ n ih =>
      intro position
      rw [lowered, lowered, unterminated, unterminated, List.compare_cons_cons]
      by_cases ends : l position = 0
      · by_cases ends' : r position = 0
        · rw [if_pos ends, if_pos ends, if_pos ends', if_pos ends', ends, ends', nul]
          rfl
        · have below := positive _ ends' (right position)
          rw [if_pos ends, if_pos ends, if_neg ends', if_neg ends', ends, nul,
            Int.compare_eq_lt.mpr below]
          rfl
      · by_cases ends' : r position = 0
        · have above := positive _ ends (left position)
          rw [if_neg ends, if_neg ends, if_pos ends', if_pos ends', ends', nul,
            Int.compare_eq_gt.mpr above]
          rfl
        · rw [if_neg ends, if_neg ends, if_neg ends', if_neg ends', List.compare_cons_cons, ih]

/-- The sign of a comparison is right exactly where the first difference is an `int`. There the
order laws hold; equality, and the agreement of the two functions, hold everywhere. -/
theorem wcsncasecmpL_sign_iff {Locale : Type} {towlowerL : Int32 → Option Locale → Int32}
    {locale : Option Locale} (keepsNul : KeepsNul (towlowerL · locale)) {abi : Abi}
    (l r : WideString abi) (n : Nat) :
    (SignAgrees towlowerL locale l.memory r.memory n ↔
        DifferenceFits (towlowerL · locale) l.memory r.memory n) ∧
      (DifferenceFits (towlowerL · locale) l.memory r.memory n →
        DifferenceFits (towlowerL · locale) r.memory l.memory n →
        compare (wcsncasecmpL towlowerL l.memory r.memory n locale).toInt 0 =
          (compare (wcsncasecmpL towlowerL r.memory l.memory n locale).toInt 0).swap) ∧
      (∀ m : WideString abi, DifferenceFits (towlowerL · locale) l.memory m.memory n →
        DifferenceFits (towlowerL · locale) m.memory r.memory n →
        DifferenceFits (towlowerL · locale) l.memory r.memory n →
        (wcsncasecmpL towlowerL l.memory m.memory n locale).toInt ≤ 0 →
        (wcsncasecmpL towlowerL m.memory r.memory n locale).toInt ≤ 0 →
        (wcsncasecmpL towlowerL l.memory r.memory n locale).toInt ≤ 0) ∧
      (wcsncasecmpL towlowerL l.memory r.memory n locale = 0 ↔
        lowered (towlowerL · locale) l.memory 0 n = lowered (towlowerL · locale) r.memory 0 n) ∧
      (l.length < n → r.length < n →
        wcscasecmpL towlowerL abi l.memory r.memory locale =
          wcsncasecmpL towlowerL l.memory r.memory n locale) := by
  refine ⟨signAgrees_iff keepsNul _ _ n, wcsncasecmpL_swap keepsNul, ?_,
    wcsncasecmpL_eq_zero_iff keepsNul _ _ n, wcscasecmpL_agrees keepsNul l r⟩
  intro m first second both
  exact wcsncasecmpL_trans keepsNul first second both

def asciiLower (c : Int32) (_ : Option Unit) : Int32 := if 65 ≤ c ∧ c ≤ 90 then c + 32 else c

theorem asciiLower_keepsNul : KeepsNul (asciiLower · none) := by
  intro c
  dsimp only
  rw [asciiLower]
  split
  next letter =>
    have lower : 65 ≤ c.toInt := Int32.le_iff_toInt_le.mp letter.1
    have upper : c.toInt ≤ 90 := Int32.le_iff_toInt_le.mp letter.2
    have sum : (c + 32).toInt = c.toInt + 32 := by
      have offset : (32 : Int32).toInt = 32 := rfl
      rw [Int32.toInt_add, offset, Int.bmod_def]
      split <;> omega
    have zero : (0 : Int32).toInt = 0 := rfl
    rw [← Int32.toInt_inj, ← Int32.toInt_inj, sum, zero]
    omega
  next => rfl

def single (c : Int32) (nonzero : c ≠ 0) : WideString .lp64 where
  memory i := if i = 0 then c else 0
  length := 1
  terminated := rfl
  nonzero := by
    intro i below
    rw [if_pos (Nat.lt_one_iff.mp below)]
    exact nonzero
  fits := by decide

theorem wcsncasecmpL_sign_letters :
    SignAgrees asciiLower none (single 65 (by decide)).memory (single 98 (by decide)).memory 5 := by
  rw [(wcsncasecmpL_sign_iff asciiLower_keepsNul (single 65 (by decide)) (single 98 (by decide))
    5).1]
  constructor <;> decide

theorem wcsncasecmpL_sign_extremes :
    ¬ ∀ (Locale : Type) (towlowerL : Int32 → Option Locale → Int32) (locale : Option Locale),
      KeepsNul (towlowerL · locale) → ∀ (abi : Abi) (l r : WideString abi) (n : Nat),
        SignAgrees towlowerL locale l.memory r.memory n := by
  intro always
  have agrees := always Unit (fun c _ => c) none (fun _ => Iff.rfl) .lp64
    (single 2147483647 (by decide)) (single (-1) (by decide)) 1
  revert agrees
  rw [SignAgrees]
  decide

end LegacySupport.Wcscasecmp
