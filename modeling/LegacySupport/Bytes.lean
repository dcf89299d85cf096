import Mathlib

/-!
Byte regions: slices of memory, and numbers stored in either byte order.
-/

namespace Bytes

def slice (memory : List UInt8) (offset count : Nat) : List UInt8 :=
  (memory.drop offset).take count

theorem length_slice {memory : List UInt8} {offset count : Nat}
    (inside : offset + count ≤ memory.length) : (slice memory offset count).length = count := by
  simp only [slice, List.length_take, List.length_drop]
  omega

theorem slice_slice (memory : List UInt8) {offset count start length : Nat}
    (inside : start + length ≤ count) :
    slice (slice memory offset count) start length = slice memory (offset + start) length := by
  simp only [slice, List.drop_take, List.drop_drop, List.take_take]
  congr 1
  omega

theorem slice_add (memory : List UInt8) (offset first second : Nat) :
    slice memory offset (first + second) =
      slice memory offset first ++ slice memory (offset + first) second := by
  rw [slice, slice, slice, List.take_add, List.drop_drop]

theorem slice_drop (memory : List UInt8) (offset start count : Nat) :
    slice (memory.drop offset) start count = slice memory (offset + start) count := by
  simp [slice]

theorem slice_append (before middle after : List UInt8) :
    slice (before ++ middle ++ after) before.length middle.length = middle := by
  simp [slice]

theorem slice_append_left (first second : List UInt8) {offset count : Nat}
    (inside : offset + count ≤ first.length) :
    slice (first ++ second) offset count = slice first offset count := by
  simp only [slice]
  rw [List.drop_append_of_le_length (by omega), List.take_append_of_le_length]
  rw [List.length_drop]
  omega

theorem slice_append_right (first second : List UInt8) (offset count : Nat) :
    slice (first ++ second) (first.length + offset) count = slice second offset count := by
  simp only [slice]
  rw [List.drop_append, List.drop_eq_nil_of_le (by omega), List.nil_append]
  congr 2
  omega

theorem slice_zero_length (memory : List UInt8) : slice memory 0 memory.length = memory := by
  simp [slice]

theorem slice_flatten (pieces : List (List UInt8)) : ∀ index (bound : index < pieces.length),
    slice pieces.flatten ((pieces.take index).map List.length).sum pieces[index].length =
      pieces[index] := by
  induction pieces with
  | nil =>
      intro index bound
      exact absurd bound (Nat.not_lt_zero index)
  | cons first rest ih =>
      intro index bound
      cases index with
      | zero => simp [slice]
      | succ index =>
          have inside : index < rest.length := Nat.lt_of_succ_lt_succ bound
          rw [List.flatten_cons, List.take_succ_cons, List.map_cons, List.sum_cons,
            slice_append_right]
          exact ih index inside

/-! ## Numbers -/

inductive ByteOrder
  | little
  | big
  deriving DecidableEq, Repr

def encodeLittle : Nat → Nat → List UInt8
  | 0, _ => []
  | width + 1, value => UInt8.ofNat (value % 256) :: encodeLittle width (value / 256)

def decodeLittle : List UInt8 → Nat
  | [] => 0
  | byte :: bytes => byte.toNat + 256 * decodeLittle bytes

def encode (order : ByteOrder) (width value : Nat) : List UInt8 :=
  match order with
  | .little => encodeLittle width value
  | .big => (encodeLittle width value).reverse

def decode (order : ByteOrder) (bytes : List UInt8) : Nat :=
  match order with
  | .little => decodeLittle bytes
  | .big => decodeLittle bytes.reverse

theorem length_encodeLittle (width value : Nat) : (encodeLittle width value).length = width := by
  induction width generalizing value with
  | zero => rfl
  | succ width ih => simp [encodeLittle, ih]

@[simp] theorem length_encode (order : ByteOrder) (width value : Nat) :
    (encode order width value).length = width := by
  cases order <;> simp [encode, length_encodeLittle]

theorem decodeLittle_encodeLittle (width value : Nat) :
    decodeLittle (encodeLittle width value) = value % 256 ^ width := by
  induction width generalizing value with
  | zero => simp [encodeLittle, decodeLittle, Nat.mod_one]
  | succ width ih =>
      have byte : (UInt8.ofNat (value % 256)).toNat = value % 256 := by
        simp
      rw [encodeLittle, decodeLittle, ih, byte, Nat.pow_succ', Nat.mod_mul]

theorem decode_encode {order : ByteOrder} {width value : Nat} (fits : value < 256 ^ width) :
    decode order (encode order width value) = value := by
  cases order <;> simp [decode, encode, decodeLittle_encodeLittle, Nat.mod_eq_of_lt fits]

theorem decodeLittle_lt (bytes : List UInt8) : decodeLittle bytes < 256 ^ bytes.length := by
  induction bytes with
  | nil => simp [decodeLittle]
  | cons byte bytes ih =>
      have small := byte.toNat_lt
      rw [decodeLittle, List.length_cons, Nat.pow_succ']
      omega

theorem decode_lt (order : ByteOrder) (bytes : List UInt8) :
    decode order bytes < 256 ^ bytes.length := by
  cases order with
  | little => exact decodeLittle_lt bytes
  | big => simpa [decode] using decodeLittle_lt bytes.reverse

theorem encodeLittle_decodeLittle (bytes : List UInt8) :
    encodeLittle bytes.length (decodeLittle bytes) = bytes := by
  induction bytes with
  | nil => rfl
  | cons byte bytes ih =>
      have small := byte.toNat_lt
      have low : (byte.toNat + 256 * decodeLittle bytes) % 256 = byte.toNat := by omega
      have high : (byte.toNat + 256 * decodeLittle bytes) / 256 = decodeLittle bytes := by omega
      rw [List.length_cons, encodeLittle, decodeLittle, low, high, ih, UInt8.ofNat_toNat]

theorem encode_decode (order : ByteOrder) (bytes : List UInt8) :
    encode order bytes.length (decode order bytes) = bytes := by
  cases order with
  | little => exact encodeLittle_decodeLittle bytes
  | big =>
      have reversed := encodeLittle_decodeLittle bytes.reverse
      rw [List.length_reverse] at reversed
      rw [encode, decode, reversed, List.reverse_reverse]

/-! ## Storing and mirroring -/

def store (memory : List UInt8) (address : Nat) (bytes : List UInt8) : List UInt8 :=
  memory.take address ++ bytes ++ memory.drop (address + bytes.length)

theorem length_store {memory bytes : List UInt8} {address : Nat}
    (inside : address + bytes.length ≤ memory.length) :
    (store memory address bytes).length = memory.length := by
  simp only [store, List.length_append, List.length_take, List.length_drop]
  omega

theorem take_store {memory : List UInt8} {address : Nat} (inside : address ≤ memory.length)
    (bytes : List UInt8) :
    (store memory address bytes).take (address + bytes.length) = memory.take address ++ bytes := by
  have length : (memory.take address ++ bytes).length = address + bytes.length := by
    rw [List.length_append, List.length_take, Nat.min_eq_left inside]
  rw [store, ← length, List.take_left]

theorem getElem?_store {memory bytes : List UInt8} {address : Nat}
    (inside : address + bytes.length ≤ memory.length) (i : Nat) :
    (store memory address bytes)[i]? =
      if address ≤ i ∧ i < address + bytes.length then bytes[i - address]? else memory[i]? := by
  have before : (memory.take address).length = address := by
    rw [List.length_take]
    omega
  rw [store, List.append_assoc]
  by_cases low : i < address
  · rw [List.getElem?_append_left (by omega), if_neg (by omega), List.getElem?_take_of_lt low]
  · rw [List.getElem?_append_right (by omega), before]
    by_cases middle : i < address + bytes.length
    · rw [List.getElem?_append_left (by omega), if_pos ⟨by omega, middle⟩]
    · have position : address + bytes.length + (i - address - bytes.length) = i := by omega
      rw [List.getElem?_append_right (by omega), if_neg (by omega), List.getElem?_drop, position]

theorem getElem?_slice {memory : List UInt8} {offset count i : Nat} (inside : i < count) :
    (slice memory offset count)[i]? = memory[offset + i]? := by
  rw [slice, List.getElem?_take_of_lt inside, List.getElem?_drop]

/-- The place of a byte when a field is turned round. -/
def mirror (start width i : Nat) : Nat :=
  if start ≤ i ∧ i < start + width then start + width - 1 - (i - start) else i

theorem mirror_outside {start width i : Nat} (outside : ¬ (start ≤ i ∧ i < start + width)) :
    mirror start width i = i := if_neg outside

theorem mirror_inside {start width i : Nat} (inside : start ≤ i ∧ i < start + width) :
    start ≤ mirror start width i ∧ mirror start width i < start + width := by
  rw [mirror, if_pos inside]
  omega

theorem mirror_mirror (start width i : Nat) : mirror start width (mirror start width i) = i := by
  by_cases inside : start ≤ i ∧ i < start + width
  · have again := mirror_inside inside
    rw [mirror, if_pos again, mirror, if_pos inside]
    omega
  · rw [mirror_outside inside, mirror_outside inside]

theorem getElem?_store_reverse {memory : List UInt8} {start width : Nat}
    (inside : start + width ≤ memory.length) (i : Nat) :
    (store memory start (slice memory start width).reverse)[i]? = memory[mirror start width i]? := by
  have length : (slice memory start width).reverse.length = width := by
    rw [List.length_reverse, length_slice inside]
  rw [getElem?_store (by omega), length]
  by_cases within : start ≤ i ∧ i < start + width
  · have count : (slice memory start width).length = width := length_slice inside
    rw [if_pos within, List.getElem?_reverse (by omega), count, getElem?_slice (by omega),
      mirror, if_pos within]
    congr 1
    omega
  · rw [if_neg within, mirror_outside within]

theorem slice_congr {memory other : List UInt8} {offset count : Nat}
    (same : ∀ i, offset ≤ i → i < offset + count → other[i]? = memory[i]?) :
    slice other offset count = slice memory offset count := by
  apply List.ext_getElem?
  intro i
  by_cases inside : i < count
  · rw [getElem?_slice inside, getElem?_slice inside]
    exact same (offset + i) (by omega) (by omega)
  · simp only [slice, List.getElem?_take, inside, if_false]

theorem slice_mirror {memory other : List UInt8} {start width : Nat}
    (room : start + width ≤ memory.length)
    (turned : ∀ i, start ≤ i → i < start + width → other[i]? = memory[mirror start width i]?) :
    slice other start width = (slice memory start width).reverse := by
  have stored := getElem?_store_reverse room
  have same : slice other start width =
      slice (store memory start (slice memory start width).reverse) start width :=
    slice_congr fun i lower upper => by rw [turned i lower upper, stored]
  have length : (slice memory start width).reverse.length = width := by
    rw [List.length_reverse, length_slice room]
  have before : (memory.take start).length = start := by
    rw [List.length_take]
    omega
  have middle := slice_append (memory.take start) (slice memory start width).reverse
    (memory.drop (start + (slice memory start width).reverse.length))
  rw [before, length] at middle
  rw [same, store, length, middle]

end Bytes
