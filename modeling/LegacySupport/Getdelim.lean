import LegacySupport.GetdelimCore
import LegacySupport.Runs

/-!
What a client reads with `getdelim`, call by call and over a whole stream. The buffer is
terminated after a delimiter but not at the end of the file, and a buffer of one byte is
too short for the terminator of a line of up to two.
-/

namespace LegacySupport.Getdelim

open CInt Runs

def body (delimiter : UInt8) (stream : List UInt8) : List UInt8 :=
  stream.takeWhile (· ≠ delimiter)

/-- The next piece of a stream: up to and including a delimiter, or all of it. -/
def nextPiece (delimiter : UInt8) (stream : List UInt8) : List UInt8 :=
  body delimiter stream ++ if delimiter ∈ stream then [delimiter] else []

def Terminated (delimiter : UInt8) (piece : List UInt8) : Prop :=
  ∃ start, piece = start ++ [delimiter] ∧ delimiter ∉ start

def LineBuf.bytes {abi : Abi} : LineBuf abi → List UInt8
  | .null _ => []
  | .space memory => memory.val

structure Holds {abi : Abi} (result : Result abi) (piece : List UInt8) : Prop where
  value : result.value = piece.length
  copied : result.lineBuf.bytes.take piece.length = piece
  terminated : result.lineBuf.bytes[piece.length]? = some 0

structure ReadsPiece {abi : Abi} (delimiter : UInt8) (stream : List UInt8) (result : Result abi)
    (piece : List UInt8) : Prop where
  split : stream = piece ++ result.rest
  nonempty : piece ≠ []
  delimited : Terminated delimiter piece ∨ result.rest = [] ∧ delimiter ∉ piece
  holds : Holds result piece

def CallCorrect {abi : Abi} (delimiter : UInt8) (stream : List UInt8) : Outcome abi → Prop
  | .fault => False
  | .returned result =>
      if stream = [] then result.value = -1 ∧ result.rest = []
      else ∃ piece, ReadsPiece delimiter stream result piece

def growthSizes (bufsiz ptr : Nat) : Nat → List Nat
  | 0 => []
  | count + 1 =>
      if ptr + 1 + 2 ≥ bufsiz then bufsiz * 2 :: growthSizes (bufsiz * 2) (ptr + 1) count
      else growthSizes bufsiz (ptr + 1) count

/-- The loop can get hold of the memory for the piece, the length of the piece is a positive
`ssize_t`, and either the piece is delimited and the terminator fits, or the byte behind the
piece happens to be zero. -/
structure LoopGuard {abi : Abi} (allocator : Allocator) (delimiter : UInt8)
    (stream : List UInt8) (memory : Memory abi) (ptr : Nat) : Prop where
  grown : ∀ size ∈ growthSizes memory.val.length ptr (body delimiter stream).length,
    size < abi.sizeMod ∧ allocator.reallocGranted size
  representable : ptr + (nextPiece delimiter stream).length < 2 ^ (abi.bits - 1)
  delimited : delimiter ∈ stream →
    ¬ (memory.val.length ≤ ptr + 1 ∧ ptr + (nextPiece delimiter stream).length ≤ 2)
  ended : delimiter ∉ stream →
    memory.val.getD (ptr + stream.length) (allocator.fresh (ptr + stream.length)) = 0

def CallGuard {abi : Abi} (allocator : Allocator) (lineBuf : LineBuf abi) (delimiter : UInt8)
    (stream : List UInt8) : Prop :=
  stream = [] ∨ ∃ memory, lineBuf.obtain allocator = some memory ∧
    LoopGuard allocator delimiter stream memory 0

/-! ## Pieces -/

@[simp] theorem nextPiece_nil (delimiter : UInt8) : nextPiece delimiter [] = [] := rfl

@[simp] theorem body_nil (delimiter : UInt8) : body delimiter [] = [] := rfl

@[simp] theorem body_delimiter (delimiter : UInt8) (rest : List UInt8) :
    body delimiter (delimiter :: rest) = [] := by
  simp [body]

@[simp] theorem nextPiece_delimiter (delimiter : UInt8) (rest : List UInt8) :
    nextPiece delimiter (delimiter :: rest) = [delimiter] := by
  simp [nextPiece]

theorem body_other {delimiter c : UInt8} (other : c ≠ delimiter) (rest : List UInt8) :
    body delimiter (c :: rest) = c :: body delimiter rest := by
  simp [body, other]

theorem nextPiece_other {delimiter c : UInt8} (other : c ≠ delimiter) (rest : List UInt8) :
    nextPiece delimiter (c :: rest) = c :: nextPiece delimiter rest := by
  simp [nextPiece, body_other other, other.symm]

theorem mem_other {delimiter c : UInt8} (other : c ≠ delimiter) (rest : List UInt8) :
    delimiter ∈ c :: rest ↔ delimiter ∈ rest := by
  simp [other.symm]

def afterPiece (delimiter : UInt8) (stream : List UInt8) : List UInt8 :=
  stream.drop (nextPiece delimiter stream).length

theorem nextPiece_split (delimiter : UInt8) (stream : List UInt8) :
    stream = nextPiece delimiter stream ++ afterPiece delimiter stream := by
  induction stream with
  | nil => rfl
  | cons c rest ih =>
      by_cases same : c = delimiter
      · subst same
        simp [afterPiece]
      · simp only [afterPiece, nextPiece_other same, List.length_cons, List.drop_succ_cons,
          List.cons_append, List.cons.injEq, true_and]
        exact ih

theorem nextPiece_delimited (delimiter : UInt8) (stream : List UInt8) :
    Terminated delimiter (nextPiece delimiter stream) ∨
      afterPiece delimiter stream = [] ∧ delimiter ∉ nextPiece delimiter stream := by
  have absent : delimiter ∉ body delimiter stream := by
    intro member
    simpa using List.mem_takeWhile_imp member
  by_cases found : delimiter ∈ stream
  · left
    exact ⟨body delimiter stream, by simp [nextPiece, found], absent⟩
  · right
    have piece : nextPiece delimiter stream = body delimiter stream := by
      simp [nextPiece, found]
    have all : body delimiter stream = stream := by
      refine List.takeWhile_eq_self_iff.mpr fun c member => ?_
      simp only [decide_eq_true_eq]
      intro same
      exact found (same ▸ member)
    rw [afterPiece, piece, all]
    exact ⟨List.drop_length, found⟩

theorem nextPiece_ne_nil (delimiter : UInt8) {stream : List UInt8} (more : stream ≠ []) :
    nextPiece delimiter stream ≠ [] := by
  cases stream with
  | nil => exact absurd rfl more
  | cons c rest =>
      by_cases same : c = delimiter
      · subst same
        simp
      · simp [nextPiece_other same]

theorem ReadsPiece.eq_nextPiece {abi : Abi} {delimiter : UInt8} {stream piece : List UInt8}
    {result : Result abi} (reads : ReadsPiece delimiter stream result piece) :
    piece = nextPiece delimiter stream := by
  obtain ⟨split, nonempty, delimited, -⟩ := reads
  rcases delimited with ⟨start, ends, absent⟩ | ⟨last, absent⟩
  · rw [split, ends]
    clear split ends nonempty
    induction start with
    | nil => simp
    | cons c start ih =>
        have other : c ≠ delimiter := fun same => absent (by simp [same])
        simp only [List.cons_append, nextPiece_other other]
        rw [← ih fun member => absent (by simp [member])]
  · rw [split, last, List.append_nil]
    clear split nonempty
    induction piece with
    | nil => rfl
    | cons c piece ih =>
        have other : c ≠ delimiter := fun same => absent (by simp [same])
        rw [nextPiece_other other, ← ih fun member => absent (by simp [member])]

/-! ## Memory -/

section Memory

variable {abi : Abi} {memory : Memory abi}

@[simp] theorem store_length (memory : Memory abi) (position : Nat) (c : UInt8) :
    (memory.store position c).val.length = memory.val.length := by
  simp [Memory.store]

theorem take_store_succ {position : Nat} (inside : position < memory.val.length) (c : UInt8) :
    (memory.store position c).val.take (position + 1) = memory.val.take position ++ [c] := by
  simp only [Memory.store]
  rw [List.take_add_one, List.take_set_of_le (Nat.le_refl _)]
  simp [inside]

theorem take_store_of_le {position count : Nat} (before : count ≤ position) (c : UInt8) :
    (memory.store position c).val.take count = memory.val.take count := by
  simp only [Memory.store]
  exact List.take_set_of_le before

theorem getElem?_store {position : Nat} (inside : position < memory.val.length) (c : UInt8) :
    (memory.store position c).val[position]? = some c := by
  simp [Memory.store, inside]

theorem getD_store_of_ne {position other : Nat} (different : position ≠ other) (c byte : UInt8) :
    (memory.store position c).val.getD other byte = memory.val.getD other byte := by
  simp [Memory.store, List.getD_eq_getElem?_getD, List.getElem?_set_ne different]

@[simp] theorem realloc_length (allocator : Allocator) (memory : Memory abi) (size : Int) :
    (allocator.realloc memory size).val.length = abi.sizeT size := by
  simp [Allocator.realloc]

theorem getElem?_realloc (allocator : Allocator) (memory : Memory abi) {size : Int} {position : Nat}
    (inside : position < abi.sizeT size) :
    (allocator.realloc memory size).val[position]? =
      some (memory.val.getD position (allocator.fresh position)) := by
  simp [Allocator.realloc, inside]

theorem take_realloc (allocator : Allocator) {size : Int} {count : Nat}
    (old : count ≤ memory.val.length) (new : count ≤ abi.sizeT size) :
    (allocator.realloc memory size).val.take count = memory.val.take count := by
  apply List.ext_getElem?
  intro position
  by_cases inside : position < count
  · rw [List.getElem?_take_of_lt inside, List.getElem?_take_of_lt inside,
      getElem?_realloc allocator memory (by omega), List.getD_eq_getElem?_getD,
      List.getElem?_eq_getElem (by omega)]
    rfl
  · rw [List.getElem?_take_eq_none (by omega), List.getElem?_take_eq_none (by omega)]

theorem getD_realloc (allocator : Allocator) {size : Int} (position : Nat)
    (grows : memory.val.length ≤ abi.sizeT size) :
    (allocator.realloc memory size).val.getD position (allocator.fresh position) =
      memory.val.getD position (allocator.fresh position) := by
  by_cases inside : position < abi.sizeT size
  · rw [List.getD_eq_getElem?_getD, getElem?_realloc allocator memory inside]
    rfl
  · rw [List.getD_eq_default _ _ (by simpa using inside),
      List.getD_eq_default _ _ (by omega)]

end Memory

/-! ## The loop -/

def LoopCorrect {abi : Abi} (delimiter : UInt8) (stream start : List UInt8)
    (outcome : Outcome abi) : Prop :=
  ∃ result, outcome = .returned result ∧ result.rest = afterPiece delimiter stream ∧
    Holds result (start ++ nextPiece delimiter stream)

/-- At the head of the loop there is room for a character, and for a terminator behind it
unless the buffer came with a single byte. -/
def Room (bufsiz ptr : Nat) : Prop :=
  ptr + 1 < bufsiz ∨ bufsiz = 1 ∧ ptr = 0 ∨ bufsiz = 2 ∧ ptr = 1

theorem long_eq_iff (abi : Abi) {value : Nat} (fits : value < abi.sizeMod) :
    abi.long value = value ↔ value < 2 ^ (abi.bits - 1) := by
  cases abi <;> simp [Abi.bits] at fits ⊢ <;> omega

theorem afterPiece_other {delimiter c : UInt8} (other : c ≠ delimiter) (rest : List UInt8) :
    afterPiece delimiter (c :: rest) = afterPiece delimiter rest := by
  simp [afterPiece, nextPiece_other other]

theorem loop_outside {abi : Abi} (allocator : Allocator) (delimiter : UInt8)
    (stream : List UInt8) (memory : Memory abi) {ptr : Nat} {start : List UInt8}
    (length : start.length = ptr) (outside : memory.val.length < ptr) :
    ¬ LoopCorrect delimiter stream start (getdelimLoop allocator delimiter stream memory ptr) := by
  rintro ⟨result, returned, rest, holds⟩
  cases stream with
  | nil =>
      simp only [getdelimLoop, Outcome.returned.injEq] at returned
      subst returned
      have copied := congrArg List.length holds.copied
      simp only [LineBuf.bytes, nextPiece_nil, List.append_nil, List.length_take] at copied
      omega
  | cons c rest =>
      simp only [getdelimLoop] at returned
      rw [if_pos (by omega)] at returned
      cases returned

theorem loop_end {abi : Abi} (allocator : Allocator) (delimiter : UInt8) {memory : Memory abi}
    {ptr : Nat} {start : List UInt8} (held : memory.val.take ptr = start)
    (length : start.length = ptr) (inside : ptr < memory.val.length) (more : 0 < ptr) :
    LoopCorrect delimiter [] start (getdelimLoop allocator delimiter [] memory ptr) ↔
      LoopGuard allocator delimiter [] memory ptr := by
  have fits := memory.property
  have value := long_eq_iff abi (show ptr < abi.sizeMod by omega)
  simp only [getdelimLoop, if_neg (show ptr ≠ 0 by omega)]
  constructor
  · rintro ⟨result, returned, rest, holds⟩
    cases returned
    have signed := holds.value
    have terminated := holds.terminated
    simp only [nextPiece_nil, List.append_nil, length, LineBuf.bytes] at signed terminated
    refine ⟨by simp [growthSizes], value.mp signed, by simp, fun _ => ?_⟩
    simp [List.getD_eq_getElem?_getD, terminated]
  · rintro ⟨_, representable, _, ended⟩
    refine ⟨_, rfl, rfl, ?_, ?_, ?_⟩
    · simp only [nextPiece_nil, List.append_nil, length]
      exact value.mpr representable
    · simp only [nextPiece_nil, List.append_nil, length, LineBuf.bytes]
      exact held
    · have zero := ended (by simp)
      simp only [nextPiece_nil, List.append_nil, length, LineBuf.bytes]
      simpa [List.getD_eq_getElem?_getD, inside] using zero

theorem loop_delimiter {abi : Abi} (allocator : Allocator) (delimiter : UInt8)
    (rest : List UInt8) {memory : Memory abi} {ptr : Nat} {start : List UInt8}
    (held : memory.val.take ptr = start) (length : start.length = ptr)
    (room : Room memory.val.length ptr) :
    LoopCorrect delimiter (delimiter :: rest) start
        (getdelimLoop allocator delimiter (delimiter :: rest) memory ptr) ↔
      LoopGuard allocator delimiter (delimiter :: rest) memory ptr := by
  have fits := memory.property
  have inside : ptr < memory.val.length := by
    simp only [Room] at room
    omega
  simp only [getdelimLoop, if_neg (show ¬ memory.val.length ≤ ptr by omega), if_true, store_length]
  split
  next full =>
    refine iff_of_false ?_ fun guarded => ?_
    · rintro ⟨result, returned, _⟩
      cases returned
    · refine guarded.delimited (by simp) ⟨full, ?_⟩
      simp only [nextPiece_delimiter, List.length_singleton]
      simp only [Room] at room
      omega
  next spare =>
    have value := long_eq_iff abi (show ptr + 1 < abi.sizeMod by omega)
    have whole : (start ++ [delimiter]).length = ptr + 1 := by simp [length]
    constructor
    · rintro ⟨result, returned, _, holds⟩
      cases returned
      have signed := holds.value
      simp only [nextPiece_delimiter, whole] at signed
      refine ⟨by simp [growthSizes], ?_, fun _ => ?_, by simp⟩
      · simpa using value.mp signed
      · omega
    · rintro ⟨_, representable, _, _⟩
      refine ⟨_, rfl, by simp [afterPiece], ?_, ?_, ?_⟩
      · simp only [nextPiece_delimiter, whole]
        exact value.mpr (by simpa using representable)
      · simp only [nextPiece_delimiter, whole, LineBuf.bytes]
        rw [take_store_of_le (Nat.le_refl _), take_store_succ inside, held]
      · simp only [nextPiece_delimiter, whole, LineBuf.bytes]
        exact getElem?_store (by simpa using spare) 0

theorem loopGuard_other {abi : Abi} {allocator : Allocator} {delimiter c : UInt8}
    (other : c ≠ delimiter) {rest : List UInt8} {memory : Memory abi} (next : Memory abi)
    {ptr : Nat}
    (size : next.val.length =
      if ptr + 1 + 2 ≥ memory.val.length then memory.val.length * 2 else memory.val.length)
    (kept : ∀ position, ptr < position →
      next.val.getD position (allocator.fresh position) =
        memory.val.getD position (allocator.fresh position)) :
    LoopGuard allocator delimiter (c :: rest) memory ptr ↔
      (ptr + 1 + 2 ≥ memory.val.length → memory.val.length * 2 < abi.sizeMod ∧
        allocator.reallocGranted (memory.val.length * 2)) ∧
      LoopGuard allocator delimiter rest next (ptr + 1) := by
  have growths : (∀ size ∈ growthSizes memory.val.length ptr (body delimiter (c :: rest)).length,
        size < abi.sizeMod ∧ allocator.reallocGranted size) ↔
      (ptr + 1 + 2 ≥ memory.val.length → memory.val.length * 2 < abi.sizeMod ∧
        allocator.reallocGranted (memory.val.length * 2)) ∧
      ∀ size ∈ growthSizes next.val.length (ptr + 1) (body delimiter rest).length,
        size < abi.sizeMod ∧ allocator.reallocGranted size := by
    rw [body_other other, List.length_cons, growthSizes, size]
    split
    next short => simp [short]
    next enough => simp [enough]
  have shift : ptr + (nextPiece delimiter (c :: rest)).length =
      ptr + 1 + (nextPiece delimiter rest).length := by
    rw [nextPiece_other other, List.length_cons]
    omega
  have terminator : (delimiter ∈ c :: rest → ¬ (memory.val.length ≤ ptr + 1 ∧
        ptr + (nextPiece delimiter (c :: rest)).length ≤ 2)) ↔
      (delimiter ∈ rest → ¬ (next.val.length ≤ ptr + 1 + 1 ∧
        ptr + 1 + (nextPiece delimiter rest).length ≤ 2)) := by
    rw [mem_other other, shift]
    refine imp_congr_right fun found => ?_
    have piece : 0 < (nextPiece delimiter rest).length := by
      refine List.length_pos_of_ne_nil (nextPiece_ne_nil delimiter ?_)
      rintro rfl
      simp at found
    split at size <;> omega
  have zero : (delimiter ∉ c :: rest → memory.val.getD (ptr + (c :: rest).length)
        (allocator.fresh (ptr + (c :: rest).length)) = 0) ↔
      (delimiter ∉ rest → next.val.getD (ptr + 1 + rest.length)
        (allocator.fresh (ptr + 1 + rest.length)) = 0) := by
    have position : ptr + (c :: rest).length = ptr + 1 + rest.length := by
      rw [List.length_cons]
      omega
    rw [mem_other other, position, kept _ (by omega)]
  constructor
  · rintro ⟨grown, representable, delimited, ended⟩
    refine ⟨(growths.mp grown).1, (growths.mp grown).2, ?_, terminator.mp delimited,
      zero.mp ended⟩
    omega
  · rintro ⟨growth, grown, representable, delimited, ended⟩
    refine ⟨growths.mpr ⟨growth, grown⟩, ?_, terminator.mpr delimited, zero.mpr ended⟩
    omega

theorem wrapped_sizeT {abi : Abi} {bufsiz ptr : Nat} (fits : bufsiz < abi.sizeMod)
    (short : ptr + 2 ≥ bufsiz) (wraps : ¬ bufsiz * 2 < abi.sizeMod)
    (representable : ptr < 2 ^ (abi.bits - 1)) :
    abi.sizeT ((bufsiz * 2 : Nat) : Int) < ptr := by
  cases abi <;> simp [Abi.bits] at fits wraps representable ⊢ <;> omega

theorem loopCorrect_other {abi : Abi} {delimiter c : UInt8} (other : c ≠ delimiter)
    (rest start : List UInt8) (outcome : Outcome abi) :
    LoopCorrect delimiter (c :: rest) start outcome ↔
      LoopCorrect delimiter rest (start ++ [c]) outcome := by
  simp only [LoopCorrect, nextPiece_other other, afterPiece_other other, List.append_assoc,
    List.singleton_append]

theorem long_lt (abi : Abi) (value : Int) : abi.long value < 2 ^ (abi.bits - 1) := by
  cases abi <;> simp [Abi.bits] <;> omega

theorem loop_value_lt {abi : Abi} (allocator : Allocator) (delimiter : UInt8)
    (stream : List UInt8) (memory : Memory abi) (ptr : Nat) {result : Result abi}
    (returned : getdelimLoop allocator delimiter stream memory ptr = .returned result) :
    result.value < 2 ^ (abi.bits - 1) := by
  have failure : (-1 : Int) < 2 ^ (abi.bits - 1) := by
    cases abi <;> decide
  induction stream generalizing memory ptr with
  | nil =>
      cases returned
      simp only
      split
      · exact failure
      · exact long_lt abi ptr
  | cons c rest ih =>
      simp only [getdelimLoop] at returned
      split at returned
      · cases returned
      split at returned
      · split at returned
        · cases returned
        · cases returned
          exact long_lt abi _
      · split at returned
        · split at returned
          · exact ih _ _ returned
          · cases returned
            exact failure
        · exact ih _ _ returned

theorem not_loopCorrect_failure {abi : Abi} (delimiter : UInt8) (stream start rest : List UInt8)
    (lineBuf : LineBuf abi) :
    ¬ LoopCorrect delimiter stream start (.returned ⟨rest, lineBuf, -1⟩) := by
  rintro ⟨result, returned, _, holds⟩
  cases returned
  have value := holds.value
  simp only at value
  omega

theorem loop_wrapped {abi : Abi} (allocator : Allocator) (delimiter : UInt8)
    (rest : List UInt8) (memory : Memory abi) {ptr : Nat} {start : List UInt8}
    (length : start.length = ptr + 1) (short : ptr + 1 + 2 ≥ memory.val.length)
    (wraps : ¬ memory.val.length * 2 < abi.sizeMod) :
    ¬ LoopCorrect delimiter rest start (getdelimLoop allocator delimiter rest
      (allocator.realloc memory ((memory.val.length * 2 : Nat) : Int)) (ptr + 1)) := by
  rintro ⟨result, returned, after, holds⟩
  have bound := loop_value_lt allocator delimiter rest _ _ returned
  rw [holds.value, List.length_append, length] at bound
  have small : ptr + 1 < 2 ^ (abi.bits - 1) := by
    cases abi <;> simp [Abi.bits] at bound ⊢ <;> omega
  refine loop_outside allocator delimiter rest _ length ?_ ⟨result, returned, after, holds⟩
  rw [realloc_length]
  exact wrapped_sizeT memory.property (by omega) wraps small

/-- From any position, the loop reads on correctly exactly when its guard holds. The induction
is on the stream; `start` is what is stored already. -/
theorem getdelimLoop_iff {abi : Abi} (allocator : Allocator) (delimiter : UInt8)
    (stream : List UInt8) {memory : Memory abi} {ptr : Nat} {start : List UInt8}
    (held : memory.val.take ptr = start) (length : start.length = ptr)
    (room : Room memory.val.length ptr) (more : stream ≠ [] ∨ 0 < ptr) :
    LoopCorrect delimiter stream start (getdelimLoop allocator delimiter stream memory ptr) ↔
      LoopGuard allocator delimiter stream memory ptr := by
  induction stream generalizing memory ptr start with
  | nil =>
      refine loop_end allocator delimiter held length ?_ (by simpa using more)
      simp only [Room] at room
      omega
  | cons c rest ih =>
      by_cases same : c = delimiter
      · subst same
        exact loop_delimiter allocator c rest held length room
      have fits := memory.property
      have inside : ptr < memory.val.length := by
        simp only [Room] at room
        omega
      have extended := take_store_succ inside c
      rw [held] at extended
      have longer : (start ++ [c]).length = ptr + 1 := by simp [length]
      rw [loopCorrect_other same]
      simp only [getdelimLoop, if_neg (show ¬ memory.val.length ≤ ptr by omega), if_neg same,
        store_length]
      split
      next short =>
        by_cases wraps : memory.val.length * 2 < abi.sizeMod
        · have grown : abi.sizeT ((memory.val.length * 2 : Nat) : Int) =
              memory.val.length * 2 := sizeT_of_lt wraps
          rw [grown, loopGuard_other same (allocator.realloc (memory.store ptr c)
              ((memory.val.length * 2 : Nat) : Int))
            (by rw [realloc_length, grown, if_pos short])
            fun position beyond => by
              rw [getD_realloc allocator position (by rw [grown, store_length]; omega),
                getD_store_of_ne (by omega)]]
          split
          next granted =>
            rw [ih ?_ longer ?_ (Or.inr (by omega))]
            · simp [short, wraps, granted]
            · rw [take_realloc allocator (by simp; omega) (by rw [grown]; omega)]
              exact extended
            · rw [realloc_length, grown]
              simp only [Room] at room ⊢
              omega
          next refused =>
            exact iff_of_false (not_loopCorrect_failure _ _ _ _ _)
              fun guarded => refused (guarded.1 short).2
        · refine iff_of_false ?_ fun guarded => ?_
          · split
            · rw [← store_length memory ptr c]
              exact loop_wrapped allocator delimiter rest _ longer (by simpa using short)
                (by simpa using wraps)
            · exact not_loopCorrect_failure _ _ _ _ _
          · refine wraps (guarded.grown (memory.val.length * 2) ?_).1
            rw [body_other same, List.length_cons, growthSizes, if_pos short]
            exact List.mem_cons_self
      next enough =>
        rw [ih extended longer ?_ (Or.inr (by omega)),
          loopGuard_other same (memory.store ptr c) (by rw [store_length, if_neg enough])
            fun position beyond => getD_store_of_ne (by omega) _ _]
        · simp [enough]
        · rw [store_length]
          simp only [Room]
          omega

/-! ## Calls -/

theorem obtain_room {abi : Abi} {lineBuf : LineBuf abi} {allocator : Allocator}
    {memory : Memory abi} (obtained : lineBuf.obtain allocator = some memory) :
    Room memory.val.length 0 := by
  unfold LineBuf.obtain at obtained
  split at obtained
  next c bytes fits =>
    cases obtained
    cases bytes with
    | nil => exact Or.inr (Or.inl ⟨rfl, rfl⟩)
    | cons => exact Or.inl (by simp)
  next =>
    split at obtained
    · rw [← Option.some.inj obtained]
      refine Or.inl ?_
      simp only [Allocator.malloc, List.length_map, List.length_range, bufsizDefault]
      omega
    · cases obtained

theorem callCorrect_iff_loopCorrect {abi : Abi} {delimiter : UInt8} {stream : List UInt8}
    (more : stream ≠ []) (outcome : Outcome abi) :
    CallCorrect delimiter stream outcome ↔ LoopCorrect delimiter stream [] outcome := by
  constructor
  · intro correct
    cases outcome with
    | fault => exact absurd correct id
    | returned result =>
        simp only [CallCorrect, if_neg more] at correct
        obtain ⟨piece, reads⟩ := correct
        have next := reads.eq_nextPiece
        subst next
        refine ⟨result, rfl, ?_, reads.holds⟩
        have both := reads.split.symm.trans (nextPiece_split delimiter stream)
        exact List.append_cancel_left both
  · rintro ⟨result, returned, rest, holds⟩
    subst returned
    simp only [CallCorrect, if_neg more]
    refine ⟨nextPiece delimiter stream, ?_, nextPiece_ne_nil delimiter more, ?_, holds⟩
    · rw [rest]
      exact nextPiece_split delimiter stream
    · rw [rest]
      exact nextPiece_delimited delimiter stream

theorem getdelim_nil {abi : Abi} (allocator : Allocator) (lineBuf : LineBuf abi)
    (delimiter : UInt8) :
    ∃ after, getdelim allocator lineBuf delimiter [] = .returned ⟨[], after, -1⟩ := by
  unfold getdelim
  split
  · exact ⟨_, rfl⟩
  · exact ⟨_, rfl⟩

theorem callCorrect_iff {abi : Abi} (allocator : Allocator) (lineBuf : LineBuf abi)
    (delimiter : UInt8) (stream : List UInt8) :
    CallCorrect delimiter stream (getdelim allocator lineBuf delimiter stream) ↔
      CallGuard allocator lineBuf delimiter stream := by
  by_cases empty : stream = []
  · subst empty
    obtain ⟨after, returned⟩ := getdelim_nil allocator lineBuf delimiter
    rw [returned]
    exact iff_of_true ⟨rfl, rfl⟩ (Or.inl rfl)
  · rw [callCorrect_iff_loopCorrect empty]
    unfold getdelim CallGuard
    split
    next refused =>
      refine iff_of_false (not_loopCorrect_failure _ _ _ _ _) ?_
      rintro (nothing | ⟨memory, obtained, _⟩)
      · exact empty nothing
      · rw [refused] at obtained
        cases obtained
    next memory obtained =>
      have loop := getdelimLoop_iff allocator delimiter stream List.take_zero List.length_nil
        (obtain_room obtained) (Or.inl empty)
      rw [loop]
      constructor
      · intro guarded
        exact Or.inr ⟨memory, obtained, guarded⟩
      · rintro (nothing | ⟨same, found, guarded⟩)
        · exact absurd nothing empty
        · rw [obtained] at found
          cases found
          exact guarded

theorem getline_correct_iff {abi : Abi} (allocator : Allocator) (lineBuf : LineBuf abi)
    (stream : List UInt8) :
    CallCorrect 10 stream (getline allocator lineBuf stream) ↔
      CallGuard allocator lineBuf 10 stream :=
  callCorrect_iff allocator lineBuf 10 stream

/-! ## Whole streams -/

structure Reading (abi : Abi) where
  lineBuf : LineBuf abi
  stream : List UInt8

def readOn {abi : Abi} (delimiter : UInt8) (reading : Reading abi) (allocator : Allocator) :
    Reading abi :=
  match getdelim allocator reading.lineBuf delimiter reading.stream with
  | .fault => reading
  | .returned result => ⟨result.lineBuf, result.rest⟩

/-- The results of the calls before the one that returns -1. There is none when a call stores
outside the buffer, or when the calls run out. -/
def drain {abi : Abi} (delimiter : UInt8) :
    List Allocator → LineBuf abi → List UInt8 → Option (List (Result abi))
  | [], _, _ => none
  | allocator :: allocators, lineBuf, stream =>
      match getdelim allocator lineBuf delimiter stream with
      | .fault => none
      | .returned result =>
          if result.value = -1 then some []
          else (drain delimiter allocators result.lineBuf result.rest).map (result :: ·)

inductive Partition {abi : Abi} (delimiter : UInt8) :
    List UInt8 → List (Result abi) → List (List UInt8) → Prop
  | done : Partition delimiter [] [] []
  | next {stream piece : List UInt8} {pieces : List (List UInt8)} {result : Result abi}
      {results : List (Result abi)} : ReadsPiece delimiter stream result piece →
      Partition delimiter result.rest results pieces →
      Partition delimiter stream (result :: results) (piece :: pieces)

theorem Partition.flatten {abi : Abi} {delimiter : UInt8} {content : List UInt8}
    {results : List (Result abi)} {pieces : List (List UInt8)}
    (partition : Partition delimiter content results pieces) : pieces.flatten = content := by
  induction partition with
  | done => rfl
  | next reads _ ih => rw [List.flatten_cons, ih, ← reads.split]

theorem throughout_ended {abi : Abi} (delimiter : UInt8) (lineBuf : LineBuf abi)
    (allocators : List Allocator) :
    Throughout (readOn delimiter)
      (fun reading allocator => CallGuard allocator reading.lineBuf delimiter reading.stream)
      ⟨lineBuf, []⟩ allocators := by
  induction allocators generalizing lineBuf with
  | nil => exact throughout_nil _
  | cons allocator allocators ih =>
      obtain ⟨after, returned⟩ := getdelim_nil allocator lineBuf delimiter
      refine ⟨Or.inl rfl, ?_⟩
      simp only [readOn, returned]
      exact ih after

theorem drain_partition_iff {abi : Abi} (delimiter : UInt8) (lineBuf : LineBuf abi)
    (content : List UInt8) (allocators : List Allocator)
    (enough : content.length < allocators.length) :
    (∃ results pieces, drain delimiter allocators lineBuf content = some results ∧
        Partition delimiter content results pieces) ↔
      Throughout (readOn delimiter)
        (fun reading allocator => CallGuard allocator reading.lineBuf delimiter reading.stream)
        ⟨lineBuf, content⟩ allocators := by
  induction allocators generalizing lineBuf content with
  | nil => simp at enough
  | cons allocator allocators ih =>
      by_cases empty : content = []
      · subst empty
        obtain ⟨after, returned⟩ := getdelim_nil allocator lineBuf delimiter
        refine iff_of_true ⟨[], [], ?_, .done⟩ (throughout_ended delimiter lineBuf _)
        simp [drain, returned]
      have correct := callCorrect_iff allocator lineBuf delimiter content
      simp only [throughout_cons, ← correct, drain, readOn]
      cases getdelim allocator lineBuf delimiter content with
      | fault => simp [CallCorrect]
      | returned result =>
          simp only [CallCorrect, if_neg empty]
          constructor
          · rintro ⟨results, pieces, drained, partition⟩
            split at drained
            · cases drained
              cases partition
              exact absurd rfl empty
            · obtain ⟨later, drainedLater, rfl⟩ := Option.map_eq_some_iff.mp drained
              cases partition with
              | next reads rest =>
                  refine ⟨⟨_, reads⟩, (ih result.lineBuf result.rest ?_).mp ⟨_, _, drainedLater, rest⟩⟩
                  have split := congrArg List.length reads.split
                  have nonempty := List.length_pos_of_ne_nil reads.nonempty
                  simp only [List.length_append, List.length_cons] at split enough
                  omega
          · rintro ⟨⟨piece, reads⟩, guarded⟩
            have nonempty := List.length_pos_of_ne_nil reads.nonempty
            have value := reads.holds.value
            obtain ⟨results, pieces, drained, partition⟩ :=
              (ih result.lineBuf result.rest (by
                have split := congrArg List.length reads.split
                simp only [List.length_append, List.length_cons] at split enough
                omega)).mpr guarded
            refine ⟨result :: results, piece :: pieces, ?_, .next reads partition⟩
            rw [if_neg (by omega), drained]
            rfl

/-- Calling until -1 partitions the content exactly when every call meets its guard. -/
theorem getdelim_partitions_iff {abi : Abi} (delimiter : UInt8) (lineBuf : LineBuf abi)
    (content : List UInt8) (allocators : List Allocator)
    (enough : content.length < allocators.length) :
    (∃ results pieces, drain delimiter allocators lineBuf content = some results ∧
        Partition delimiter content results pieces ∧ pieces.flatten = content) ↔
      Throughout (readOn delimiter)
        (fun reading allocator => CallGuard allocator reading.lineBuf delimiter reading.stream)
        ⟨lineBuf, content⟩ allocators := by
  rw [← drain_partition_iff delimiter lineBuf content allocators enough]
  constructor
  · rintro ⟨results, pieces, drained, partition, _⟩
    exact ⟨results, pieces, drained, partition⟩
  · rintro ⟨results, pieces, drained, partition⟩
    exact ⟨results, pieces, drained, partition, partition.flatten⟩

def staleAllocator : Allocator := ⟨true, fun _ => true, fun _ => 65⟩

def staleBuf : LineBuf .lp64 := .space ⟨[65, 65, 65, 65], by decide⟩

theorem getdelim_partitions_two_lines :
    ∃ results pieces, drain 10 (List.replicate 5 staleAllocator) staleBuf [120, 10, 121, 10] =
        some results ∧
      Partition 10 [120, 10, 121, 10] results pieces ∧ pieces.flatten = [120, 10, 121, 10] := by
  refine (getdelim_partitions_iff 10 staleBuf [120, 10, 121, 10]
    (List.replicate 5 staleAllocator) (by decide)).mpr
      ⟨Or.inr ⟨_, rfl, ?_⟩, Or.inr ⟨_, rfl, ?_⟩, throughout_ended 10 _ _⟩
  · exact ⟨by decide, by decide, fun _ => by decide, fun missing => absurd (by decide) missing⟩
  · exact ⟨by decide, by decide, fun _ => by decide, fun missing => absurd (by decide) missing⟩

theorem getdelim_leaves_unterminated :
    ¬ ∀ (abi : Abi) (delimiter : UInt8) (lineBuf : LineBuf abi) (content : List UInt8)
        (allocators : List Allocator), content.length < allocators.length →
      ∃ results pieces, drain delimiter allocators lineBuf content = some results ∧
        Partition delimiter content results pieces := by
  intro always
  have guarded := (drain_partition_iff 10 staleBuf [120] [staleAllocator, staleAllocator]
    (by decide)).mp (always .lp64 10 staleBuf [120] [staleAllocator, staleAllocator] (by decide))
  rcases guarded.1 with ended | ⟨memory, obtained, guard⟩
  · exact absurd ended (by decide)
  · cases obtained
    exact absurd (guard.ended (by decide)) (by decide)

end LegacySupport.Getdelim
