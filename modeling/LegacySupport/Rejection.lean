import Mathlib

/-!
Reducing a number below a limit modulo a bound, after rejecting those below the remainder of the
limit. Every residue is then left with the same number of preimages.
-/

namespace Rejection

open Finset

def accepted (limit bound value : Nat) : Finset Nat :=
  (range limit).filter fun word => limit % bound ≤ word ∧ word % bound = value

theorem card_accepted {limit bound value : Nat} (below : value < bound) :
    (accepted limit bound value).card = limit / bound := by
  have positive : 0 < bound := by omega
  have all := Nat.count_modEq_card limit positive value
  have rejected := Nat.count_modEq_card (limit % bound) positive value
  rw [Nat.count_eq_card_filter_range] at all rejected
  have small : limit % bound / bound = 0 := Nat.div_eq_of_lt (Nat.mod_lt limit positive)
  rw [Nat.mod_mod, small, Nat.zero_add] at rejected
  -- the numbers of this residue are those accepted and those rejected
  have parts := card_filter_add_card_filter_not
    (s := (range limit).filter (· ≡ value [MOD bound])) (limit % bound ≤ ·)
  have first : ((range limit).filter (· ≡ value [MOD bound])).filter (limit % bound ≤ ·) =
      accepted limit bound value := by
    ext word
    simp only [accepted, mem_filter, Nat.ModEq, Nat.mod_eq_of_lt below]
    tauto
  have second : ((range limit).filter (· ≡ value [MOD bound])).filter (¬ limit % bound ≤ ·) =
      (range (limit % bound)).filter (· ≡ value [MOD bound]) := by
    have smaller := Nat.mod_le limit bound
    ext word
    simp only [mem_filter, mem_range, Nat.not_le]
    constructor
    · rintro ⟨⟨_, same⟩, less⟩
      exact ⟨less, same⟩
    · rintro ⟨less, same⟩
      exact ⟨⟨by omega, same⟩, less⟩
  rw [first, second] at parts
  omega

theorem card_rejected_lt {limit bound : Nat} (positive : 0 < bound) (fits : bound ≤ limit) :
    2 * (limit % bound) < limit := by
  have remainder := Nat.mod_lt limit positive
  have quotient : 1 ≤ limit / bound := Nat.div_pos fits positive
  have whole := Nat.div_add_mod limit bound
  have least := Nat.mul_le_mul_left bound quotient
  omega

end Rejection
