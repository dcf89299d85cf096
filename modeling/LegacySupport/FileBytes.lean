import Mathlib

/-!
The contents of a regular file: writing at an offset, where a gap is filled, and setting the size.
-/

namespace FileBytes

variable {α : Type} (fill : α)

/-- A write of nothing does not extend the file. -/
def overwrite (data : List α) (offset : Nat) (values : List α) : List α :=
  if values = [] then data
  else
    data.take offset ++ List.replicate (offset - data.length) fill ++ values ++
      data.drop (offset + values.length)

def resize (data : List α) (size : Nat) : List α :=
  data.take size ++ List.replicate (size - data.length) fill

@[simp] theorem overwrite_nil (data : List α) (offset : Nat) :
    overwrite fill data offset [] = data := if_pos rfl

theorem length_overwrite (data : List α) (offset : Nat) {values : List α} (some : values ≠ []) :
    (overwrite fill data offset values).length = max data.length (offset + values.length) := by
  rw [overwrite, if_neg some]
  simp only [List.length_append, List.length_take, List.length_replicate, List.length_drop]
  omega

theorem getElem?_overwrite (data : List α) (offset : Nat) {values : List α} (some : values ≠ [])
    (i : Nat) :
    (overwrite fill data offset values)[i]? =
      if i < offset then (data ++ List.replicate (offset - data.length) fill)[i]?
      else if i < offset + values.length then values[i - offset]? else data[i]? := by
  have front :
      (data.take offset ++ List.replicate (offset - data.length) fill).length = offset := by
    simp only [List.length_append, List.length_take, List.length_replicate]
    omega
  rw [overwrite, if_neg some]
  split
  next before =>
    rw [List.append_assoc, List.getElem?_append_left (by omega)]
    rcases Nat.lt_or_ge i data.length with inside | beyond
    · rw [List.getElem?_append_left (by simp; omega), List.getElem?_append_left inside,
        List.getElem?_take_of_lt before]
    · rw [List.getElem?_append_right (by simp; omega), List.getElem?_append_right beyond]
      congr 1
      simp only [List.length_take]
      omega
  next behind =>
    rw [List.append_assoc, List.getElem?_append_right (by omega), front]
    split
    next within => rw [List.getElem?_append_left (by omega)]
    next after =>
      rw [List.getElem?_append_right (by omega), List.getElem?_drop]
      congr 1
      omega

theorem overwrite_append (data : List α) (offset : Nat) (first second : List α) :
    overwrite fill (overwrite fill data offset first) (offset + first.length) second =
      overwrite fill data offset (first ++ second) := by
  by_cases none : first = []
  · rw [none, overwrite_nil, List.nil_append, List.length_nil, Nat.add_zero]
  by_cases nothing : second = []
  · rw [nothing, overwrite_nil, List.append_nil]
  have both : first ++ second ≠ [] := List.append_ne_nil_of_left_ne_nil none second
  have length := length_overwrite fill data offset none
  apply List.ext_getElem?
  intro i
  rw [getElem?_overwrite fill _ _ nothing, getElem?_overwrite fill data offset both]
  have total : (first ++ second).length = first.length + second.length := List.length_append
  rcases Nat.lt_or_ge i (offset + first.length) with before | behind
  · rw [if_pos before, List.getElem?_append_left (by omega),
      getElem?_overwrite fill data offset none]
    by_cases front : i < offset
    · rw [if_pos front, if_pos front]
    · rw [if_neg front, if_neg front, if_pos before, if_pos (by omega),
        List.getElem?_append_left (by omega)]
  · have later : ¬ i < offset + first.length := Nat.not_lt.mpr behind
    have front : ¬ i < offset := by omega
    rw [if_neg later, if_neg front, total, ← Nat.add_assoc]
    by_cases within : i < offset + first.length + second.length
    · rw [if_pos within, if_pos within, List.getElem?_append_right (by omega)]
      congr 1
      omega
    · rw [if_neg within, if_neg within, getElem?_overwrite fill data offset none, if_neg front,
        if_neg later]

theorem overwrite_empty (values : List α) : overwrite fill [] 0 values = values := by
  by_cases none : values = []
  · rw [none, overwrite_nil]
  · rw [overwrite, if_neg none]
    simp

theorem overwrite_length (data values : List α) :
    overwrite fill data data.length values = data ++ values := by
  by_cases none : values = []
  · rw [none, overwrite_nil, List.append_nil]
  · rw [overwrite, if_neg none, List.take_length, Nat.sub_self, List.replicate_zero,
      List.append_nil, List.drop_of_length_le (Nat.le_add_right _ _), List.append_nil]

theorem resize_append (front : List α) {rest : List α} {size : Nat} (enough : size ≤ rest.length) :
    resize fill (front ++ rest) size = (front ++ rest).take size := by
  have filled : size - (front ++ rest).length = 0 := by
    rw [List.length_append]
    omega
  rw [resize, filled, List.replicate_zero, List.append_nil]

theorem resize_length (data : List α) : resize fill data data.length = data := by
  rw [resize, List.take_length, Nat.sub_self, List.replicate_zero, List.append_nil]

theorem resize_empty (size : Nat) : resize fill ([] : List α) size = List.replicate size fill := by
  rw [resize, List.take_nil, List.length_nil, Nat.sub_zero, List.nil_append]

end FileBytes
