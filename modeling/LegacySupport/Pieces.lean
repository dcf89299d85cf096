import Mathlib

/-!
Reading a list piece by piece with a cursor. However the counts are chosen, the pieces together
are one contiguous part of the list.
-/

namespace Pieces

variable {α : Type}

def piece (data : List α) (position count : Nat) : List α := (data.drop position).take count

/-- Pieces one behind the other: the cursor advances by what a piece has. -/
def pieces (data : List α) : Nat → List Nat → List α
  | _, [] => []
  | position, count :: rest =>
      piece data position count ++
        pieces data (position + (piece data position count).length) rest

theorem length_piece (data : List α) (position count : Nat) :
    (piece data position count).length = min count (data.length - position) := by
  rw [piece, List.length_take, List.length_drop]

theorem piece_clipped (data : List α) (position count : Nat) :
    piece data position (min count (data.length - position)) = piece data position count := by
  rw [piece, piece, List.take_eq_take_iff, List.length_drop]
  omega

theorem piece_append (data : List α) (position first second : Nat) :
    piece data position first ++ piece data (position + (piece data position first).length) second =
      piece data position (first + second) := by
  rw [length_piece, piece, piece, piece, ← List.drop_drop, List.take_add]
  rcases Nat.le_total first (data.length - position) with enough | short
  · rw [Nat.min_eq_left enough]
  · have empty : (data.drop position).drop first = [] := by
      rw [List.drop_eq_nil_iff, List.length_drop]
      exact short
    rw [Nat.min_eq_right short, ← List.length_drop, List.drop_length, empty]

theorem pieces_eq (data : List α) (counts : List Nat) : ∀ position,
    pieces data position counts = piece data position counts.sum := by
  induction counts with
  | nil =>
      intro position
      rw [pieces, List.sum_nil, piece, List.take_zero]
  | cons count rest ih =>
      intro position
      rw [pieces, ih, List.sum_cons, piece_append]

theorem getElem?_piece (data : List α) {position count i : Nat} (inside : i < count) :
    (piece data position count)[i]? = data[position + i]? := by
  rw [piece, List.getElem?_take_of_lt inside, List.getElem?_drop]

end Pieces
