import LegacySupport.Bytes

/-!
Memory by address, and accesses that are checked against one region of it. A computation stops
at its first access outside the region.
-/

namespace CheckedMemory

open Bytes

abbrev Memory := Nat → UInt8

structure Region where
  start : Nat
  size : Nat
  deriving DecidableEq

structure Access where
  address : Nat
  count : Nat
  deriving DecidableEq

def Region.finish (region : Region) : Nat := region.start + region.size

def Region.Holds (region : Region) (address count : Nat) : Prop :=
  region.start ≤ address ∧ address + count ≤ region.finish

instance (region : Region) (address count : Nat) : Decidable (region.Holds address count) :=
  inferInstanceAs (Decidable (_ ∧ _))

/-- A computation goes on with a value, leaves its function, or has gone outside the region. -/
inductive Outcome (Exit Value : Type)
  | next (value : Value)
  | exit (left : Exit)
  | fault (access : Access)

variable {Exit Value Other : Type}

def Outcome.bind (outcome : Outcome Exit Value) (continue' : Value → Outcome Exit Other) :
    Outcome Exit Other :=
  match outcome with
  | .next value => continue' value
  | .exit left => .exit left
  | .fault access => .fault access

instance : Monad (Outcome Exit) where
  pure := .next
  bind := Outcome.bind

def Outcome.Faults (outcome : Outcome Exit Value) : Prop :=
  match outcome with
  | .fault _ => True
  | _ => False

instance (outcome : Outcome Exit Value) : Decidable outcome.Faults :=
  match outcome with
  | .next _ => inferInstanceAs (Decidable False)
  | .exit _ => inferInstanceAs (Decidable False)
  | .fault _ => inferInstanceAs (Decidable True)

def bytesAt (memory : Memory) (address : Nat) : Nat → List UInt8
  | 0 => []
  | count + 1 => memory address :: bytesAt memory (address + 1) count

def numberAt (order : ByteOrder) (width : Nat) (memory : Memory) (address : Nat) : Nat :=
  decode order (bytesAt memory address width)

def reversed (width : Nat) (memory : Memory) (address : Nat) : Memory := fun other =>
  if address ≤ other ∧ other < address + width then memory (2 * address + width - 1 - other)
  else memory other

def stored (memory : Memory) (address : Nat) (bytes : List UInt8) : Memory := fun other =>
  if address ≤ other ∧ other < address + bytes.length then bytes.getD (other - address) 0
  else memory other

def stringAt (memory : Memory) (address : Nat) : Nat → Option (List UInt8)
  | 0 => none
  | count + 1 =>
      if memory address = 0 then some []
      else (stringAt memory (address + 1) count).map (memory address :: ·)

/-! ## Checked accesses -/

def access (region : Region) (address count : Nat) : Outcome Exit Unit :=
  if region.Holds address count then .next () else .fault ⟨address, count⟩

def loadBytes (region : Region) (memory : Memory) (address count : Nat) :
    Outcome Exit (List UInt8) := do
  access region address count
  return bytesAt memory address count

def load (region : Region) (order : ByteOrder) (width : Nat) (memory : Memory) (address : Nat) :
    Outcome Exit Nat := do
  access region address width
  return numberAt order width memory address

def reverse (region : Region) (width : Nat) (memory : Memory) (address : Nat) :
    Outcome Exit Memory := do
  access region address width
  return reversed width memory address

/-- A string is read through its NUL, and without one to the first byte behind the region. -/
def loadString (region : Region) (memory : Memory) (address : Nat) :
    Outcome Exit (List UInt8) := do
  access region address 0
  match stringAt memory address (region.finish - address) with
  | some string => return string
  | none => .fault ⟨region.finish, 1⟩

section Accesses

variable {region : Region} {memory : Memory} {address count width : Nat} {order : ByteOrder}

@[simp] theorem bind_next (value : Value) (continue' : Value → Outcome Exit Other) :
    (Outcome.next value >>= continue') = continue' value := rfl

@[simp] theorem bind_exit (left : Exit) (continue' : Value → Outcome Exit Other) :
    ((.exit left : Outcome Exit Value) >>= continue') = .exit left := rfl

@[simp] theorem bind_fault (fault : Access) (continue' : Value → Outcome Exit Other) :
    ((.fault fault : Outcome Exit Value) >>= continue') = .fault fault := rfl

theorem bind_bind {Last : Type} (outcome : Outcome Exit Value)
    (first : Value → Outcome Exit Other) (second : Other → Outcome Exit Last) :
    ((outcome >>= first) >>= second) = outcome >>= fun value => first value >>= second := by
  cases outcome with
  | next value => rfl
  | exit left => rfl
  | fault fault => rfl

@[simp] theorem pure_next (value : Value) : (pure value : Outcome Exit Value) = .next value := rfl

@[simp] theorem faults_next (value : Value) :
    ¬ (Outcome.next value : Outcome Exit Value).Faults := id

@[simp] theorem faults_exit (left : Exit) :
    ¬ (Outcome.exit left : Outcome Exit Value).Faults := id

@[simp] theorem faults_fault (fault : Access) :
    (Outcome.fault fault : Outcome Exit Value).Faults := True.intro

theorem loadBytes_inside (inside : region.Holds address count) :
    loadBytes region memory address count = (.next (bytesAt memory address count) :
      Outcome Exit (List UInt8)) := by
  rw [loadBytes, access, if_pos inside]
  rfl

theorem load_inside (inside : region.Holds address width) :
    load region order width memory address = (.next (numberAt order width memory address) :
      Outcome Exit Nat) := by
  rw [load, access, if_pos inside]
  rfl

theorem load_outside (outside : ¬ region.Holds address width) :
    load region order width memory address = (.fault ⟨address, width⟩ : Outcome Exit Nat) := by
  rw [load, access, if_neg outside]
  rfl

theorem reverse_inside (inside : region.Holds address width) :
    reverse region width memory address = (.next (reversed width memory address) :
      Outcome Exit Memory) := by
  rw [reverse, access, if_pos inside]
  rfl

theorem stringAt_none_iff (memory : Memory) (count : Nat) : ∀ address,
    stringAt memory address count = none ↔ ∀ index < count, memory (address + index) ≠ 0 := by
  induction count with
  | zero =>
      intro address
      exact iff_of_true rfl fun index bound => absurd bound (Nat.not_lt_zero index)
  | succ count ih =>
      intro address
      rw [stringAt]
      by_cases zero : memory address = 0
      · rw [if_pos zero]
        refine iff_of_false (fun none => by cases none) fun nonzero => ?_
        exact nonzero 0 (Nat.succ_pos count) zero
      · rw [if_neg zero, Option.map_eq_none_iff, ih (address + 1)]
        constructor
        · intro nonzero index bound
          cases index with
          | zero => exact zero
          | succ index =>
              have other := nonzero index (by omega)
              rwa [Nat.add_assoc, Nat.add_comm 1 index] at other
        · intro nonzero index bound
          have other := nonzero (index + 1) (by omega)
          rwa [Nat.add_assoc, Nat.add_comm 1 index]

def Terminated (region : Region) (memory : Memory) (address : Nat) : Prop :=
  region.start ≤ address ∧ ∃ last, address ≤ last ∧ last < region.finish ∧ memory last = 0

theorem loadString_terminated (Exit : Type) (terminated : Terminated region memory address) :
    ∃ string, stringAt memory address (region.finish - address) = some string ∧
      loadString region memory address = (.next string : Outcome Exit (List UInt8)) := by
  obtain ⟨lower, last, after, before, zero⟩ := terminated
  have inside : region.Holds address 0 := ⟨lower, by omega⟩
  cases found : stringAt memory address (region.finish - address) with
  | none =>
      have nonzero := (stringAt_none_iff memory _ address).mp found (last - address) (by omega)
      rw [Nat.add_sub_cancel' after] at nonzero
      exact absurd zero nonzero
  | some string =>
      refine ⟨string, rfl, ?_⟩
      rw [loadString, access, if_pos inside, bind_next, found]
      rfl

theorem loadString_faults (Exit : Type) (unterminated : ¬ Terminated region memory address) :
    (loadString region memory address : Outcome Exit (List UInt8)).Faults := by
  rw [loadString, access]
  by_cases inside : region.Holds address 0
  · rw [if_pos inside, bind_next]
    have none : stringAt memory address (region.finish - address) = none := by
      rw [stringAt_none_iff]
      intro index bound zero
      exact unterminated ⟨inside.1, address + index, by omega, by omega, zero⟩
    rw [none]
    exact faults_fault _
  · rw [if_neg inside, bind_fault]
    exact faults_fault _

theorem length_bytesAt (memory : Memory) (count : Nat) : ∀ address,
    (bytesAt memory address count).length = count := by
  induction count with
  | zero => exact fun address => rfl
  | succ count ih => exact fun address => congrArg _ (ih (address + 1))

theorem getElem_bytesAt (memory : Memory) (count : Nat) : ∀ address index
    (bound : index < (bytesAt memory address count).length),
    (bytesAt memory address count)[index] = memory (address + index) := by
  induction count with
  | zero =>
      intro address index bound
      exact absurd bound (Nat.not_lt_zero index)
  | succ count ih =>
      intro address index bound
      cases index with
      | zero => rfl
      | succ index =>
          have tail : index < (bytesAt memory (address + 1) count).length := by
            rw [length_bytesAt] at bound ⊢
            omega
          have rest := ih (address + 1) index tail
          rw [Nat.add_assoc, Nat.add_comm 1 index] at rest
          exact rest

theorem bytesAt_eq (memory : Memory) (address : Nat) (bytes : List UInt8)
    (same : ∀ index (bound : index < bytes.length), memory (address + index) = bytes[index]) :
    bytesAt memory address bytes.length = bytes := by
  apply List.ext_getElem (length_bytesAt memory bytes.length address)
  intro index left right
  rw [getElem_bytesAt]
  exact same index right

theorem bytesAt_congr {memory other : Memory} (count : Nat) : ∀ address,
    (∀ index < count, memory (address + index) = other (address + index)) →
      bytesAt memory address count = bytesAt other address count := by
  induction count with
  | zero => exact fun address same => rfl
  | succ count ih =>
      intro address same
      rw [bytesAt, bytesAt]
      have first : memory address = other address := same 0 (Nat.succ_pos count)
      rw [first, ih (address + 1)]
      intro index bound
      have next := same (index + 1) (by omega)
      rwa [Nat.add_comm index 1, ← Nat.add_assoc] at next

theorem bytesAt_append (memory : Memory) (second first : Nat) : ∀ address,
    bytesAt memory address (first + second) =
      bytesAt memory address first ++ bytesAt memory (address + first) second := by
  induction first with
  | zero =>
      intro address
      rw [Nat.zero_add, Nat.add_zero]
      rfl
  | succ first ih =>
      intro address
      rw [Nat.succ_add, bytesAt, ih (address + 1), bytesAt, List.cons_append, Nat.add_assoc,
        Nat.add_comm 1 first]

theorem stored_outside (memory : Memory) (address other : Nat) (bytes : List UInt8)
    (outside : other < address ∨ address + bytes.length ≤ other) :
    stored memory address bytes other = memory other :=
  if_neg (by omega)

theorem bytesAt_stored (memory : Memory) (address : Nat) (bytes : List UInt8) :
    bytesAt (stored memory address bytes) address bytes.length = bytes := by
  apply bytesAt_eq
  intro index bound
  rw [stored, if_pos (by omega), Nat.add_sub_cancel_left]
  exact (List.getElem_eq_getD 0).symm

theorem bytesAt_stored_append (memory : Memory) (address : Nat) (first second : List UInt8) :
    bytesAt (stored memory address (first ++ second)) (address + first.length) second.length =
      second := by
  have whole := bytesAt_stored memory address (first ++ second)
  rw [List.length_append, bytesAt_append] at whole
  exact (List.append_inj whole (length_bytesAt _ _ _)).2

theorem bytesAt_stored_outside (memory : Memory) (address other count : Nat) (bytes : List UInt8)
    (outside : other + count ≤ address ∨ address + bytes.length ≤ other) :
    bytesAt (stored memory address bytes) other count = bytesAt memory other count := by
  apply bytesAt_congr
  intro index bound
  exact stored_outside memory address _ bytes (by omega)

theorem bytesAt_reversed (memory : Memory) (address width : Nat) :
    bytesAt (reversed width memory address) address width =
      (bytesAt memory address width).reverse := by
  apply List.ext_getElem
  · rw [List.length_reverse, length_bytesAt, length_bytesAt]
  · intro index left right
    rw [length_bytesAt] at left
    rw [getElem_bytesAt, List.getElem_reverse, getElem_bytesAt, reversed, if_pos (by omega)]
    congr 1
    rw [length_bytesAt]
    omega

theorem bytesAt_reversed_outside (memory : Memory) (address width other count : Nat)
    (outside : other + count ≤ address ∨ address + width ≤ other) :
    bytesAt (reversed width memory address) other count = bytesAt memory other count := by
  apply bytesAt_congr
  intro index bound
  exact if_neg (by omega)

theorem stringAt_bytesAt (memory : Memory) (string : List UInt8) : ∀ address count,
    (∀ byte ∈ string, byte ≠ 0) → string.length < count →
      bytesAt memory address (string.length + 1) = string ++ [0] →
        stringAt memory address count = some string := by
  induction string with
  | nil =>
      intro address count nonzero bound read
      cases count with
      | zero => exact absurd bound (Nat.not_lt_zero _)
      | succ count => exact if_pos (List.cons.inj read).1
  | cons byte string ih =>
      intro address count nonzero bound read
      cases count with
      | zero => exact absurd bound (Nat.not_lt_zero _)
      | succ count =>
          obtain ⟨first, rest⟩ := List.cons.inj read
          have other : memory address ≠ 0 := by
            rw [first]
            exact nonzero byte List.mem_cons_self
          have tail := ih (address + 1) count (fun later member =>
            nonzero later (List.mem_cons_of_mem _ member)) (Nat.lt_of_succ_lt_succ bound) rest
          rw [stringAt, if_neg other, tail, first]
          rfl

theorem reversed_outside (width address other : Nat) (memory : Memory)
    (outside : other < address ∨ address + width ≤ other) :
    reversed width memory address other = memory other :=
  if_neg (by omega)

end Accesses

end CheckedMemory
