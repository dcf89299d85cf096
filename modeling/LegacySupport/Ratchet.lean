import LegacySupport.KeystreamLedger
import LegacySupport.ReseedBudget

/-!
The generator as a ratchet: a block of keystream, of which the first forty bytes are the key of the
next block and the rest is handed out byte by byte. What else the generator does, with its buffer
and its requests in pieces, does not show.
-/

namespace LegacySupport.Arc4random

open CInt

/-! ## The keystream -/

def atCounter (input : Vector UInt32 16) (counter : Nat) : Vector UInt32 16 :=
  Vector.ofFn fun word =>
    if word.val = 12 then UInt32.ofNat counter
    else if word.val = 13 then UInt32.ofNat (counter / 2 ^ 32)
    else input.get word

def blocks (input : Vector UInt32 16) (counter count : Nat) : List UInt8 :=
  (List.range count).flatMap fun i => chachaBlock (atCounter input (counter + i))

theorem length_u32to8Little (words : List UInt32) :
    (words.flatMap u32to8Little).length = 4 * words.length := by
  induction words with
  | nil => rfl
  | cons word words ih =>
      rw [List.flatMap_cons, List.length_append, ih, List.length_cons]
      simp only [u32to8Little, List.length_cons, List.length_nil]
      omega

theorem length_chachaBlock (input : Vector UInt32 16) : (chachaBlock input).length = 64 := by
  rw [chachaBlock, length_u32to8Little, Vector.length_toList]

theorem blocks_succ (input : Vector UInt32 16) (counter count : Nat) :
    blocks input counter (count + 1) =
      chachaBlock (atCounter input counter) ++ blocks input (counter + 1) count := by
  have shift : ∀ i, chachaBlock (atCounter input (counter + (i + 1))) =
      chachaBlock (atCounter input (counter + 1 + i)) := by
    intro i
    rw [Nat.add_assoc, Nat.add_comm 1 i]
  simp only [blocks, List.range_succ_eq_map, List.flatMap_cons, List.flatMap_map, Nat.add_zero,
    Nat.succ_eq_add_one, shift]

theorem length_blocks (input : Vector UInt32 16) (counter count : Nat) :
    (blocks input counter count).length = count * 64 := by
  induction count generalizing counter with
  | zero => simp [blocks]
  | succ count ih =>
      rw [blocks_succ, List.length_append, length_chachaBlock, ih]
      omega

theorem getElem_atCounter (input : Vector UInt32 16) (counter i : Nat) (bound : i < 16) :
    (atCounter input counter)[i] =
      if i = 12 then UInt32.ofNat counter
      else if i = 13 then UInt32.ofNat (counter / 2 ^ 32)
      else input[i] := by
  simp only [atCounter, Vector.getElem_ofFn]
  rfl

theorem chachaCount_atCounter (input : Vector UInt32 16) (counter : Nat) :
    chachaCount ⟨atCounter input counter⟩ = ⟨atCounter input (counter + 1)⟩ := by
  have low : UInt32.ofNat counter + 1 = UInt32.ofNat (counter + 1) := by
    rw [UInt32.ofNat_add]
    rfl
  have carry : (if UInt32.ofNat (counter + 1) = 0 then UInt32.ofNat (counter / 2 ^ 32) + 1
      else UInt32.ofNat (counter / 2 ^ 32)) = UInt32.ofNat ((counter + 1) / 2 ^ 32) := by
    have wraps : UInt32.ofNat (counter + 1) = 0 ↔ (counter + 1) % 2 ^ 32 = 0 := by
      rw [← UInt32.toNat_inj]
      simp
    split
    next full =>
      have next : (counter + 1) / 2 ^ 32 = counter / 2 ^ 32 + 1 := by
        rw [wraps] at full
        omega
      rw [next, UInt32.ofNat_add]
      rfl
    next room =>
      have same : (counter + 1) / 2 ^ 32 = counter / 2 ^ 32 := by
        rw [wraps] at room
        omega
      rw [same]
  simp only [chachaCount, getElem_atCounter, Nat.reduceEqDiff, if_true, if_false, low, carry,
    ChachaCtx.mk.injEq]
  apply Vector.ext
  intro i bound
  simp only [Vector.getElem_set, getElem_atCounter]
  by_cases high : i = 13
  · subst high
    rfl
  · by_cases word : i = 12
    · subst word
      rfl
    · simp only [high, word, Ne.symm high, Ne.symm word, if_false]

/-- Keystream of any length is cut from consecutive blocks. -/
theorem chachaEncryptBytes_eq (input : Vector UInt32 16) (counter bytes : Nat) :
    chachaEncryptBytes ⟨atCounter input counter⟩ bytes =
      ((blocks input counter ((bytes + 63) / 64)).take bytes,
        ⟨atCounter input (counter + (bytes + 63) / 64)⟩) := by
  induction bytes using Nat.strong_induction_on generalizing counter with
  | _ bytes ih =>
      rw [chachaEncryptBytes]
      split
      next none =>
        subst none
        simp [blocks]
      next some =>
        split
        next last =>
          have one : (bytes + 63) / 64 = 1 := by omega
          rw [one, blocks_succ, chachaCount_atCounter]
          simp [blocks]
        next more =>
          have next : (bytes + 63) / 64 = (bytes - 64 + 63) / 64 + 1 := by omega
          have position : counter + 1 + (bytes - 64 + 63) / 64 =
              counter + ((bytes - 64 + 63) / 64 + 1) := by omega
          have whole : (chachaBlock (atCounter input counter)).length ≤ bytes := by
            rw [length_chachaBlock]
            omega
          rw [chachaCount_atCounter, ih (bytes - 64) (by omega), next, blocks_succ, position,
            List.take_append, List.take_of_length_le whole, length_chachaBlock]

/-! ## The ratchet -/

/-- What the next block is made from, what is left of the present one, and the bytes until fresh
entropy is taken. -/
structure Ratchet where
  input : Vector UInt32 16
  pending : List UInt8
  count : Nat
  start : atCounter input 0 = input
  short : pending.length ≤ 984

theorem inputOf_start (bytes : List UInt8) : atCounter (inputOf bytes) 0 = inputOf bytes := by
  apply Vector.ext
  intro i bound
  rw [getElem_atCounter]
  split
  next low =>
    subst low
    simp [inputOf]
  next =>
    split
    next high =>
      subst high
      simp [inputOf]
    next => rfl

def Ratchet.zero : Ratchet where
  input := Vector.replicate 16 0
  pending := []
  count := 0
  start := by decide
  short := by decide

def Ratchet.block (r : Ratchet) : List UInt8 := blocks r.input 0 16

theorem Ratchet.length_block (r : Ratchet) : r.block.length = 1024 := length_blocks r.input 0 16

def Ratchet.turn (r : Ratchet) : Ratchet where
  input := inputOf (r.block.take 40)
  pending := r.block.drop 40
  count := r.count
  start := inputOf_start _
  short := by rw [List.length_drop, r.length_block]

def Ratchet.stir (r : Ratchet) (rnd : Entropy) : Ratchet where
  input := inputOf ((r.block.take 40).zipWith (· ^^^ ·) rnd.toList)
  pending := []
  count := 1600000
  start := inputOf_start _
  short := Nat.zero_le _

def Ratchet.charge (abi : Abi) (r : Ratchet) (len : Nat) (rnd : Entropy) : Ratchet :=
  let r := if r.count ≤ len then r.stir rnd else r
  { r with count := abi.sizeT (r.count - len) }

def Ratchet.drop (r : Ratchet) (m : Nat) : Ratchet where
  input := r.input
  pending := r.pending.drop m
  count := r.count
  start := r.start
  short := by
    have short := r.short
    rw [List.length_drop]
    omega

def Ratchet.pull : Nat → Ratchet → List UInt8 × Ratchet
  | 0, r => ([], r)
  | n + 1, r =>
      let r := if r.pending = [] then r.turn else r
      let rest := pull n (r.drop 1)
      (r.pending.headD 0 :: rest.1, rest.2)

/-- A word is not taken from two blocks. -/
def Ratchet.word (abi : Abi) (r : Ratchet) (rnd : Entropy) : List UInt8 × Ratchet :=
  let r := r.charge abi 4 rnd
  let r := if r.pending.length < 4 then r.turn else r
  r.pull 4

def Ratchet.words (host : Host) (minimum : UInt32) : Ratchet → List Entropy → List UInt8 × Ratchet
  | r, [] => ([], r)
  | r, rnd :: rnds =>
      let drawn := r.word host.abi rnd
      if host.wordOf drawn.1 ≥ minimum then drawn
      else
        let rest := words host minimum drawn.2 rnds
        (drawn.1 ++ rest.1, rest.2)

def Ratchet.serve (host : Host) (r : Ratchet) : Request host.abi → List UInt8 × Ratchet
  | .stir rnd => ([], r.stir rnd)
  | .buf n _ rnd => (r.charge host.abi n rnd).pull n
  | .u32 rnd => r.word host.abi rnd
  | .uniform upperBound rnds =>
      if upperBound < 2 then ([], r) else r.words host (uniformMin upperBound) rnds

def Ratchet.run (host : Host) : Ratchet → List (Request host.abi) → List UInt8 × Ratchet
  | r, [] => ([], r)
  | r, request :: requests =>
      let served := r.serve host request
      let rest := run host served.2 requests
      (served.1 ++ rest.1, rest.2)

/-! ## The state -/

def bufOf (pending : List UInt8) : Block :=
  Vector.ofFn fun i =>
    if i.val < rsbufsz - pending.length then 0
    else pending.getD (i.val - (rsbufsz - pending.length)) 0

def Ratchet.state (r : Ratchet) (log : List Event) : RandState where
  rsHave := r.pending.length
  rsCount := r.count
  rsChacha := ⟨r.input⟩
  rsBuf := bufOf r.pending
  log

theorem bufOf_nil : bufOf [] = Block.zero := by
  apply Vector.ext
  intro i bound
  simp only [bufOf, Block.zero, Vector.getElem_ofFn, Vector.getElem_replicate, List.length_nil]
  exact if_pos bound

theorem bufOf_slice {pending : List UInt8} {m : Nat} (short : pending.length ≤ rsbufsz)
    (available : m ≤ pending.length) :
    (bufOf pending).slice (rsbufsz - pending.length) m = pending.take m := by
  apply List.ext_getElem?
  intro i
  by_cases inside : i < m
  · rw [getElem?_slice _ inside, List.getElem?_take_of_lt inside]
    have bound : rsbufsz - pending.length + i < rsbufsz := by omega
    rw [Vector.getElem?_eq_getElem bound]
    have position : rsbufsz - pending.length + i - (rsbufsz - pending.length) = i := by omega
    have known : i < pending.length := by omega
    simp [bufOf, position, List.getD_eq_getElem?_getD, known]
  · have length : ((bufOf pending).slice (rsbufsz - pending.length) m).length = m :=
      length_slice _ (by omega)
    rw [List.getElem?_eq_none (by omega), List.getElem?_eq_none (by simp; omega)]

theorem bufOf_clear {pending : List UInt8} {m : Nat} (short : pending.length ≤ rsbufsz)
    (available : m ≤ pending.length) :
    (bufOf pending).clear (rsbufsz - pending.length) m = bufOf (pending.drop m) := by
  apply Vector.ext
  intro i bound
  rw [getElem_clear]
  simp only [bufOf, Vector.getElem_ofFn, List.length_drop]
  split
  next handed => rw [if_pos (by omega)]
  next kept =>
    by_cases low : i < rsbufsz - pending.length
    · rw [if_pos low, if_pos (by omega)]
    · rw [if_neg low, if_neg (by omega)]
      have position : m + (i - (rsbufsz - (pending.length - m))) =
          i - (rsbufsz - pending.length) := by omega
      simp [List.getD_eq_getElem?_getD, position]

theorem clear_front {block : Block} {key pending : List UInt8}
    (bytes : block.toList = key ++ pending) (front : key.length = 40) :
    block.clear 0 (keysz + ivsz) = bufOf pending := by
  have size : key.length + pending.length = rsbufsz := by
    rw [← List.length_append, ← bytes, Vector.length_toList]
  apply Vector.ext
  intro i bound
  have taken : keysz + ivsz = 40 := rfl
  rw [getElem_clear]
  simp only [bufOf, Vector.getElem_ofFn, Nat.zero_le, true_and, Nat.zero_add, taken]
  by_cases low : i < 40
  · rw [if_pos low, if_pos (by omega)]
  · rw [if_neg low, if_neg (by omega)]
    have byte : block.toList[i]? = pending[i - key.length]? := by
      rw [bytes, List.getElem?_append_right (by omega)]
    have position : rsbufsz - pending.length = key.length := by omega
    have inside : i - key.length < pending.length := by omega
    rw [position, List.getD_eq_getElem?_getD, ← byte]
    simp [bound]

theorem slice_front {block : Block} {key pending : List UInt8}
    (bytes : block.toList = key ++ pending) (front : key.length = 40) :
    block.slice 0 (keysz + ivsz) = key := by
  have taken : keysz + ivsz = 40 := rfl
  rw [Block.slice, bytes, List.drop_zero, taken, ← front, List.take_left]

def Ratchet.filled (r : Ratchet) : Block := Vector.ofFn fun i => r.block.getD i.val 0

theorem Ratchet.filled_toList (r : Ratchet) : r.filled.toList = r.block := by
  apply List.ext_getElem
  · rw [Vector.length_toList, r.length_block]
    rfl
  · intro i bound inside
    simp [Ratchet.filled, List.getD_eq_getElem?_getD, inside]

theorem keystream_state (r : Ratchet) (log : List Event) :
    (chachaEncryptBytes (r.state log).rsChacha rsbufsz).1 = r.block := by
  have context : (r.state log).rsChacha = ⟨atCounter r.input 0⟩ := by
    rw [r.start]
    rfl
  have count : (rsbufsz + 63) / 64 = 16 := rfl
  rw [context, chachaEncryptBytes_eq, count]
  exact List.take_of_length_le (Nat.le_of_eq r.length_block)

theorem rsRekey_mixed (r : Ratchet) (log : List Event) (dat : Option (List UInt8))
    {key pending : List UInt8}
    (mixed : (match dat with
      | some dat => r.filled.mix dat
      | none => r.filled).toList = key ++ pending) (front : key.length = 40) :
    rsRekey (r.state log) dat =
      ⟨984, r.count, ⟨inputOf key⟩, bufOf pending, log ++ [.filled r.filled]⟩ := by
  have filled : (Vector.ofFn fun i : Fin rsbufsz => r.block.getD i.val 0) = r.filled := rfl
  cases dat with
  | none =>
      dsimp only at mixed
      simp only [rsRekey, keystream_state, filled, slice_front mixed front,
        clear_front mixed front, rsInit_input, RandState.mk.injEq]
      exact ⟨rfl, rfl, trivial, trivial, rfl⟩
  | some dat =>
      dsimp only at mixed
      simp only [rsRekey, keystream_state, filled, slice_front mixed front,
        clear_front mixed front, rsInit_input, RandState.mk.injEq]
      exact ⟨rfl, rfl, trivial, trivial, rfl⟩

theorem Ratchet.front (r : Ratchet) : (r.block.take 40).length = 40 := by
  rw [List.length_take, r.length_block]
  rfl

theorem rsRekey_state (r : Ratchet) (log : List Event) :
    ∃ more, rsRekey (r.state log) none = r.turn.state (log ++ more) := by
  refine ⟨[.filled r.filled], ?_⟩
  rw [rsRekey_mixed r log none (r.filled_toList.trans (List.take_append_drop 40 r.block).symm)
    r.front]
  simp only [Ratchet.state, Ratchet.turn, List.length_drop, r.length_block]

theorem mix_toList (r : Ratchet) (rnd : Entropy) :
    (r.filled.mix rnd.toList).toList =
      (r.block.take 40).zipWith (· ^^^ ·) rnd.toList ++ r.block.drop 40 := by
  have length := r.length_block
  have entropy : rnd.toList.length = 40 := Vector.length_toList
  have taken : keysz + ivsz = 40 := rfl
  apply List.ext_getElem
  · rw [Vector.length_toList, List.length_append, List.length_zipWith, List.length_take,
      List.length_drop, length, entropy]
    rfl
  · intro i bound inside
    have known : i < r.block.length := by
      rw [Vector.length_toList] at bound
      rw [length]
      exact bound
    simp only [Vector.getElem_toList, Block.mix, Vector.getElem_ofFn, Ratchet.filled, entropy,
      taken, Nat.min_self]
    by_cases low : i < 40
    · rw [if_pos low, List.getElem_append_left (by simp; omega)]
      simp [List.getD_eq_getElem?_getD, known, low]
    · rw [if_neg low, List.getElem_append_right (by simp; omega)]
      have position : 40 + (i - min 40 r.block.length) = i := by omega
      simp [List.getD_eq_getElem?_getD, known, position]

theorem rsStir_state (r : Ratchet) (log : List Event) (rnd : Entropy) :
    ∃ more, rsStir (r.state log) rnd = (r.stir rnd).state (log ++ more) := by
  refine ⟨[.filled r.filled] ++ [.stirred], ?_⟩
  have length : ((r.block.take 40).zipWith (· ^^^ ·) rnd.toList).length = 40 := by
    rw [List.length_zipWith, r.front, Vector.length_toList]
    rfl
  rw [rsStir, rsRekey_mixed r log (some rnd.toList) (mix_toList r rnd) length]
  simp only [Ratchet.state, Ratchet.stir, bufOf_nil, List.length_nil, List.append_assoc]

theorem hand_state (r : Ratchet) (log : List Event) {m : Nat} (available : m ≤ r.pending.length) :
    ∃ more, (r.state log).hand m = ((r.drop m).state (log ++ more), r.pending.take m) := by
  have short : r.pending.length ≤ rsbufsz := le_trans r.short (by decide)
  refine ⟨[.handed (rsbufsz - r.pending.length) (r.pending.take m)], ?_⟩
  simp only [RandState.hand, Ratchet.state, bufOf_slice short available,
    bufOf_clear short available, Ratchet.drop, List.length_drop]

/-! ## Pulling bytes -/

theorem Ratchet.drop_drop (r : Ratchet) (m n : Nat) : (r.drop m).drop n = r.drop (m + n) := by
  simp only [Ratchet.drop, List.drop_drop]

theorem Ratchet.turn_pending (r : Ratchet) : r.turn.pending.length = 984 := by
  rw [Ratchet.turn, List.length_drop, r.length_block]

theorem Ratchet.pull_drop : ∀ (m : Nat) (r : Ratchet), m ≤ r.pending.length →
    r.pull m = (r.pending.take m, r.drop m) := by
  intro m
  induction m with
  | zero => exact fun r _ => rfl
  | succ m ih =>
      intro r available
      have some : r.pending ≠ [] := List.ne_nil_of_length_pos (by omega)
      have rest : m ≤ (r.drop 1).pending.length := by
        simp only [Ratchet.drop, List.length_drop]
        omega
      rw [Ratchet.pull, if_neg some, ih (r.drop 1) rest, Ratchet.drop_drop, Nat.add_comm 1 m]
      obtain ⟨byte, more, pending⟩ := List.exists_cons_of_ne_nil some
      simp only [pending, Ratchet.drop, List.headD_cons, List.drop_one, List.tail_cons,
        List.take_succ_cons]

theorem Ratchet.pull_add : ∀ (m n : Nat) (r : Ratchet),
    r.pull (m + n) = ((r.pull m).1 ++ ((r.pull m).2.pull n).1, ((r.pull m).2.pull n).2) := by
  intro m
  induction m with
  | zero =>
      intro n r
      rw [Nat.zero_add]
      rfl
  | succ m ih =>
      intro n r
      rw [Nat.add_right_comm]
      simp only [Ratchet.pull, ih, List.cons_append]

theorem Ratchet.pull_turn (r : Ratchet) {n : Nat} (positive : n ≠ 0) (empty : r.pending = []) :
    r.turn.pull n = r.pull n := by
  obtain ⟨m, rfl⟩ := Nat.exists_eq_succ_of_ne_zero positive
  have some : r.turn.pending ≠ [] := by
    intro none
    have length := r.turn_pending
    rw [none] at length
    cases length
  rw [Ratchet.pull, Ratchet.pull, if_pos empty, if_neg some]

theorem rsRandomBufLoop_pull : ∀ (st : RandState) (n : Nat) (r : Ratchet) (log : List Event),
    st = r.state log →
    ∃ more, rsRandomBufLoop st n = ((r.pull n).2.state more, (r.pull n).1) := by
  intro st n
  fun_induction rsRandomBufLoop st n with
  | case1 st =>
      rintro r log rfl
      exact ⟨log, rfl⟩
  | case2 st n more some_left m handed rest ih =>
      rintro r log rfl
      have available : m ≤ r.pending.length := Nat.min_le_right n r.pending.length
      obtain ⟨since, taken⟩ := hand_state r log available
      obtain ⟨after, looped⟩ := ih (r.drop m) (log ++ since) (congrArg Prod.fst taken)
      have total : n = m + (n - m) := by
        have least : m ≤ n := Nat.min_le_left n r.pending.length
        omega
      refine ⟨after, ?_⟩
      have split := r.pull_add m (n - m)
      rw [← total, r.pull_drop m available] at split
      have bytes : handed.2 = r.pending.take m := congrArg Prod.snd taken
      have loop : rest = (((r.drop m).pull (n - m)).2.state after, ((r.drop m).pull (n - m)).1) :=
        looped
      rw [split, loop, bytes]
  | case3 st n more empty ih =>
      rintro r log rfl
      have none : r.pending = [] := List.eq_nil_of_length_eq_zero (Nat.eq_zero_of_not_pos empty)
      obtain ⟨since, rekeyed⟩ := rsRekey_state r log
      obtain ⟨after, looped⟩ := ih r.turn (log ++ since) rekeyed
      exact ⟨after, by rw [looped, r.pull_turn more none]⟩

/-! ## Requests -/

theorem rsStirIfNeeded_state (abi : Abi) (r : Ratchet) (log : List Event) (len : Nat)
    (rnd : Entropy) :
    ∃ more, rsStirIfNeeded abi (r.state log) len rnd = (r.charge abi len rnd).state more := by
  by_cases spent : r.count ≤ len
  · obtain ⟨since, stirred⟩ := rsStir_state r log rnd
    refine ⟨log ++ since, ?_⟩
    have due : (r.state log).rsCount ≤ len := spent
    simp only [rsStirIfNeeded, if_pos due, stirred, Ratchet.charge, if_pos spent]
    rfl
  · refine ⟨log, ?_⟩
    have room : ¬ (r.state log).rsCount ≤ len := spent
    simp only [rsStirIfNeeded, if_neg room, Ratchet.charge, if_neg spent]
    rfl

theorem rsRandomU32_state (abi : Abi) (r : Ratchet) (log : List Event) (rnd : Entropy) :
    ∃ more, rsRandomU32 abi (r.state log) rnd =
      ((r.word abi rnd).2.state more, (r.word abi rnd).1) := by
  obtain ⟨since, charged⟩ := rsStirIfNeeded_state abi r log 4 rnd
  simp only [rsRandomU32, charged, Ratchet.word]
  generalize r.charge abi 4 rnd = r
  by_cases short : r.pending.length < 4
  · have few : (r.state since).rsHave < 4 := short
    obtain ⟨after, rekeyed⟩ := rsRekey_state r since
    have available : 4 ≤ r.turn.pending.length := by
      rw [r.turn_pending]
      decide
    obtain ⟨last, taken⟩ := hand_state r.turn (since ++ after) available
    rw [if_pos few, if_pos short, rekeyed, taken, r.turn.pull_drop 4 available]
    exact ⟨_, rfl⟩
  · have enough : ¬ (r.state since).rsHave < 4 := short
    have available : 4 ≤ r.pending.length := Nat.le_of_not_lt short
    obtain ⟨last, taken⟩ := hand_state r since available
    rw [if_neg enough, if_neg short, taken, r.pull_drop 4 available]
    exact ⟨_, rfl⟩

theorem uniformLoop_state (host : Host) (minimum : UInt32) (rnds : List Entropy) :
    ∀ (r : Ratchet) (log : List Event),
      uniformBytes host minimum (r.state log) rnds = (r.words host minimum rnds).1 ∧
        ∃ more, (uniformLoop host minimum (r.state log) rnds).1 =
          (r.words host minimum rnds).2.state more := by
  induction rnds with
  | nil => exact fun r log => ⟨rfl, log, rfl⟩
  | cons rnd rnds ih =>
      intro r log
      obtain ⟨since, drawn⟩ := rsRandomU32_state host.abi r log rnd
      simp only [uniformBytes, uniformLoop, Ratchet.words, drawn]
      split
      next => exact ⟨rfl, since, rfl⟩
      next =>
        obtain ⟨bytes, after, state⟩ := ih (r.word host.abi rnd).2 since
        exact ⟨by rw [bytes], after, state⟩

theorem serve_state (host : Host) (r : Ratchet) (log : List Event) (request : Request host.abi) :
    replied host (r.state log) request = (r.serve host request).1 ∧
      ∃ more, serve host (r.state log) request = (r.serve host request).2.state more := by
  cases request with
  | stir rnd =>
      obtain ⟨more, stirred⟩ := rsStir_state r log rnd
      exact ⟨rfl, _, stirred⟩
  | buf n fits rnd =>
      obtain ⟨since, charged⟩ := rsStirIfNeeded_state host.abi r log n rnd
      obtain ⟨more, looped⟩ := rsRandomBufLoop_pull _ n _ since charged
      simp only [replied, serve, rsRandomBuf, looped, Ratchet.serve]
      exact ⟨trivial, more, rfl⟩
  | u32 rnd =>
      obtain ⟨more, drawn⟩ := rsRandomU32_state host.abi r log rnd
      simp only [replied, serve, drawn, Ratchet.serve]
      exact ⟨trivial, more, rfl⟩
  | uniform upperBound rnds =>
      simp only [replied, serve, arc4randomUniform, Ratchet.serve]
      split
      next => exact ⟨rfl, log, rfl⟩
      next =>
        obtain ⟨bytes, more, state⟩ := uniformLoop_state host (uniformMin upperBound) rnds r log
        exact ⟨bytes, more, state⟩

theorem run_state (host : Host) (requests : List (Request host.abi)) :
    ∀ (r : Ratchet) (log : List Event),
      transcript host (r.state log) requests = (r.run host requests).1 ∧
        ∃ more, requests.foldl (serve host) (r.state log) = (r.run host requests).2.state more := by
  induction requests with
  | nil => exact fun r log => ⟨rfl, log, rfl⟩
  | cons request requests ih =>
      intro r log
      obtain ⟨bytes, since, served⟩ := serve_state host r log request
      obtain ⟨rest, more, state⟩ := ih (r.serve host request).2 since
      simp only [transcript, List.foldl_cons, Ratchet.run, bytes, served, rest]
      exact ⟨trivial, more, state⟩

theorem state_zero : RandState.zero = Ratchet.zero.state [] := by
  simp only [Ratchet.state, Ratchet.zero, bufOf_nil]
  rfl

/-- A generator that starts zeroed hands out what the ratchet does, whatever it is asked for, and
its state is never more than the ratchet's: the input of the next block, what is left of the present
one behind zeros, and the bytes until fresh entropy is taken. -/
theorem arc4random_ratchet (host : Host) (requests : List (Request host.abi)) :
    transcript host RandState.zero requests = (Ratchet.zero.run host requests).1 ∧
      ∃ log, requests.foldl (serve host) RandState.zero =
        (Ratchet.zero.run host requests).2.state log := by
  rw [state_zero]
  exact run_state host requests Ratchet.zero []

/-! ## Requests in pieces -/

def Ratchet.withCount (r : Ratchet) (count : Nat) : Ratchet := { r with count }

theorem Ratchet.pull_withCount : ∀ (n : Nat) (r : Ratchet) (count : Nat),
    (r.withCount count).pull n = ((r.pull n).1, (r.pull n).2.withCount count) := by
  intro n
  induction n with
  | zero => exact fun r count => rfl
  | succ n ih =>
      intro r count
      by_cases empty : r.pending = []
      · have none : (r.withCount count).pending = [] := empty
        simp only [Ratchet.pull, if_pos empty, if_pos none]
        have turned : (r.withCount count).turn.drop 1 = (r.turn.drop 1).withCount count := rfl
        rw [turned, ih]
        rfl
      · have some : (r.withCount count).pending ≠ [] := empty
        simp only [Ratchet.pull, if_neg empty, if_neg some]
        have dropped : (r.withCount count).drop 1 = (r.drop 1).withCount count := rfl
        rw [dropped, ih]
        rfl

theorem Ratchet.pull_count (n : Nat) (r : Ratchet) : (r.pull n).2.count = r.count := by
  have same := r.pull_withCount n r.count
  have self : r.withCount r.count = r := rfl
  rw [self] at same
  rw [same]
  rfl

theorem Ratchet.charge_room {abi : Abi} {r : Ratchet} (len : Nat) (rnd : Entropy)
    (room : len < r.count) (small : r.count < abi.sizeMod) :
    r.charge abi len rnd = r.withCount (r.count - len) := by
  have kept : ¬ r.count ≤ len := by omega
  have unsigned : abi.sizeT ((r.count : Int) - len) = r.count - len := by
    have cast : (r.count : Int) - len = (r.count - len : Nat) := by omega
    rw [cast]
    exact sizeT_of_lt (by omega)
  simp only [Ratchet.charge, if_neg kept, unsigned]
  rfl

def pieces {host : Host} (sizes : List { n : Nat // n < host.abi.sizeMod }) (rnd : Entropy) :
    List (Request host.abi) :=
  sizes.map fun n => .buf n.1 n.2 rnd

theorem Ratchet.run_pieces {host : Host} (rnd : Entropy)
    (sizes : List { n : Nat // n < host.abi.sizeMod }) : ∀ r : Ratchet, r.count < host.abi.sizeMod →
    (sizes.map Subtype.val).sum < r.count →
    (r.run host (pieces sizes rnd)).1 = (r.pull (sizes.map Subtype.val).sum).1 := by
  induction sizes with
  | nil => exact fun r _ _ => rfl
  | cons n sizes ih =>
      intro r small room
      rw [List.map_cons, List.sum_cons] at room ⊢
      have charged := Ratchet.charge_room n.1 rnd (by omega) small
      have count := (r.withCount (r.count - n.1)).pull_count n.1
      have rest := ih ((r.withCount (r.count - n.1)).pull n.1).2
        (by rw [count, Ratchet.withCount]; simp only; omega)
        (by rw [count, Ratchet.withCount]; simp only; omega)
      have whole := (r.withCount (r.count - n.1)).pull_add n.1 (sizes.map Subtype.val).sum
      have counted := r.pull_withCount (n.1 + (sizes.map Subtype.val).sum) (r.count - n.1)
      rw [counted] at whole
      simp only [pieces, List.map_cons, Ratchet.run, Ratchet.serve, charged] at rest ⊢
      rw [rest]
      exact (congrArg Prod.fst whole).symm

/-! The count stays a `size_t`. -/

theorem Ratchet.stir_small (abi : Abi) (r : Ratchet) (rnd : Entropy) :
    (r.stir rnd).count < abi.sizeMod := by
  cases abi <;> simp [Ratchet.stir]

theorem Ratchet.charge_small (abi : Abi) (r : Ratchet) (len : Nat) (rnd : Entropy) :
    (r.charge abi len rnd).count < abi.sizeMod := sizeT_lt abi _

theorem Ratchet.word_small (abi : Abi) (r : Ratchet) (rnd : Entropy) :
    (r.word abi rnd).2.count < abi.sizeMod := by
  have charged := r.charge_small abi 4 rnd
  simp only [Ratchet.word, Ratchet.pull_count]
  split
  next => exact charged
  next => exact charged

theorem Ratchet.words_small (host : Host) (minimum : UInt32) (rnds : List Entropy) :
    ∀ r : Ratchet, r.count < host.abi.sizeMod →
      (r.words host minimum rnds).2.count < host.abi.sizeMod := by
  induction rnds with
  | nil => exact fun r small => small
  | cons rnd rnds ih =>
      intro r small
      simp only [Ratchet.words]
      split
      next => exact r.word_small host.abi rnd
      next => exact ih _ (r.word_small host.abi rnd)

theorem Ratchet.serve_small (host : Host) {r : Ratchet} (small : r.count < host.abi.sizeMod)
    (request : Request host.abi) : (r.serve host request).2.count < host.abi.sizeMod := by
  cases request with
  | stir rnd => exact r.stir_small host.abi rnd
  | buf n fits rnd =>
      rw [Ratchet.serve, Ratchet.pull_count]
      exact r.charge_small host.abi n rnd
  | u32 rnd => exact r.word_small host.abi rnd
  | uniform upperBound rnds =>
      rw [Ratchet.serve]
      split
      next => exact small
      next => exact r.words_small host _ rnds small

theorem Ratchet.run_small (host : Host) (requests : List (Request host.abi)) :
    ∀ r : Ratchet, r.count < host.abi.sizeMod →
      (r.run host requests).2.count < host.abi.sizeMod := by
  induction requests with
  | nil => exact fun r small => small
  | cons request requests ih => exact fun r small => ih _ (r.serve_small host small request)

/-- In whatever state the generator is, bytes asked for in pieces are the bytes asked for at once,
as long as they are fewer than are left until fresh entropy is taken. -/
theorem arc4random_pieces (host : Host) (requests : List (Request host.abi))
    (sizes : List { n : Nat // n < host.abi.sizeMod }) (rnd fresh : Entropy)
    (room : (sizes.map Subtype.val).sum <
      (requests.foldl (serve host) RandState.zero).rsCount) :
    transcript host (requests.foldl (serve host) RandState.zero) (pieces sizes rnd) =
      (rsRandomBuf host.abi (requests.foldl (serve host) RandState.zero)
        (sizes.map Subtype.val).sum fresh).2 := by
  obtain ⟨_, log, state⟩ := run_state host requests Ratchet.zero []
  rw [← state_zero] at state
  rw [state] at room ⊢
  have initial : Ratchet.zero.count < host.abi.sizeMod := by
    cases host.abi <;> simp [Ratchet.zero]
  have small := Ratchet.run_small host requests Ratchet.zero initial
  have asked : (sizes.map Subtype.val).sum < (Ratchet.zero.run host requests).2.count := room
  revert small asked
  generalize (Ratchet.zero.run host requests).2 = r
  intro small asked
  obtain ⟨since, charged⟩ := rsStirIfNeeded_state host.abi r log (sizes.map Subtype.val).sum fresh
  obtain ⟨more, looped⟩ :=
    rsRandomBufLoop_pull _ (sizes.map Subtype.val).sum _ since charged
  rw [(run_state host (pieces sizes rnd) r log).1, r.run_pieces rnd sizes small asked]
  simp only [rsRandomBuf, looped, Ratchet.charge_room _ fresh asked small, Ratchet.pull_withCount]

theorem arc4random_pieces_stirred :
    transcript littleEndianHost
        ([Request.stir (Vector.replicate 40 0)].foldl (serve littleEndianHost) RandState.zero)
        (pieces [⟨1000, by decide⟩, ⟨1, by decide⟩] (Vector.replicate 40 0)) =
      (rsRandomBuf littleEndianHost.abi
        ([Request.stir (Vector.replicate 40 0)].foldl (serve littleEndianHost) RandState.zero)
        1001 (Vector.replicate 40 0)).2 := by
  have room : 1001 < ([Request.stir (Vector.replicate 40 0)].foldl (serve littleEndianHost)
      RandState.zero).rsCount := by
    have count : ([Request.stir (Vector.replicate 40 0)].foldl (serve littleEndianHost)
        RandState.zero).rsCount = 1600000 := rfl
    rw [count]
    decide
  exact arc4random_pieces littleEndianHost [.stir (Vector.replicate 40 0)]
    [⟨1000, by decide⟩, ⟨1, by decide⟩] (Vector.replicate 40 0) (Vector.replicate 40 0) room

end LegacySupport.Arc4random
